import Qll.Codegen.Routine
import Qll.Proofs.Types.Mangled

/-!
# Mangled texts without their blanks

The label of a name is its mangled text without blanks. Nothing is lost: where a blank stands in a
mangled text can be told from the signs around it, as long as the names in it have no signs. So texts
with the same label are the same.
-/

namespace Qll.Types

/-! ## Plain names -/

/-- Whether all characters of a text are as asked is decided by looking at these only, though there
are finitely many characters. -/
instance (priority := 2000) decidableForallMem (l : List Char) (P : Char → Prop) [DecidablePred P] :
    Decidable (∀ c ∈ l, P c) := List.decidableBAll P l

/-- A letter, a digit or an underscore; beyond ASCII every character counts as a letter. -/
def IsWordChar (c : Char) : Prop := c.isAlphanum = true ∨ c = '_' ∨ 128 ≤ c.toNat

instance (c : Char) : Decidable (IsWordChar c) :=
  inferInstanceAs (Decidable (c.isAlphanum = true ∨ c = '_' ∨ 128 ≤ c.toNat))

/-- A name of letters, digits and underscores. -/
def IsPlain (name : String) : Prop := name ≠ "" ∧ ∀ c ∈ name.toList, IsWordChar c

instance (name : String) : Decidable (IsPlain name) :=
  inferInstanceAs (Decidable (name ≠ "" ∧ ∀ c ∈ name.toList, IsWordChar c))

/-- The vocabulary of plain names. -/
def plainNames : Vocabulary where
  accepts := IsPlain
  resolved _ := False
  template _ := True
  entries := 0
  idle _ _ := True
  root := by decide
  null := by decide
  builtin kind := by cases kind <;> decide

/-! ## Putting blanks back -/

/-- Puts blanks back into a text: around the arrow of a function type and the opening brace of a
struct, and behind a comma, a semicolon and the colon of a member. -/
def respaced : List Char → List Char
  | ':' :: ':' :: rest => ':' :: ':' :: respaced rest
  | '=' :: '>' :: rest => ' ' :: '=' :: '>' :: ' ' :: respaced rest
  | '{' :: rest => ' ' :: '{' :: ' ' :: respaced rest
  | ':' :: rest => ':' :: ' ' :: respaced rest
  | ',' :: rest => ',' :: ' ' :: respaced rest
  | ';' :: rest => ';' :: ' ' :: respaced rest
  | c :: rest => c :: respaced rest
  | [] => []

/-- A character that has no blanks around it. -/
def IsTight (c : Char) : Prop :=
  c ≠ ' ' ∧ c ≠ ':' ∧ c ≠ '=' ∧ c ≠ '{' ∧ c ≠ ',' ∧ c ≠ ';'

instance (c : Char) : Decidable (IsTight c) :=
  inferInstanceAs (Decidable (c ≠ ' ' ∧ c ≠ ':' ∧ c ≠ '=' ∧ c ≠ '{' ∧ c ≠ ',' ∧ c ≠ ';'))

/-- No blank is put behind a tight sign. -/
theorem respaced_tight {c : Char} (h : IsTight c) (rest : List Char) :
    respaced (c :: rest) = c :: respaced rest := by
  obtain ⟨-, hcolon, harrow, hbrace, hcomma, hsemicolon⟩ := h
  rw [respaced.eq_def]
  split <;> simp_all

/-- A blank is put behind a single colon. -/
theorem respaced_colon {c : Char} (h : c ≠ ':') (rest : List Char) :
    respaced (':' :: c :: rest) = ':' :: ' ' :: respaced (c :: rest) := by
  rw [respaced]
  intro rest' heq
  simp_all

/-- A text whose blanks can be put back whatever follows, and which has no dollar sign. -/
structure Spaced (l : List Char) : Prop where
  regains : ∀ rest, respaced (l.filter (· ≠ ' ') ++ rest) = l ++ respaced rest
  undollared : '$' ∉ l

namespace Spaced

variable {l l' : List Char}

/-- Nothing has no blanks. -/
theorem nil : Spaced [] := ⟨fun _ => rfl, by simp⟩

/-- Blanks are put back in two texts one behind the other. -/
theorem append (h : Spaced l) (h' : Spaced l') : Spaced (l ++ l') where
  regains rest := by
    rw [List.filter_append, List.append_assoc, h.regains, h'.regains, List.append_assoc]
  undollared := by simp [h.undollared, h'.undollared]

/-- A text of tight characters. -/
theorem tight (h : ∀ c ∈ l, IsTight c ∧ c ≠ '$') : Spaced l := by
  refine ⟨fun rest => ?_, fun hdollar => (h _ hdollar).2 rfl⟩
  induction l with
  | nil => rfl
  | cons c l ih =>
    obtain ⟨⟨hc, -⟩, hl⟩ := List.forall_mem_cons.1 h
    rw [List.filter_cons_of_pos (by simpa using hc.1), List.cons_append, respaced_tight hc, ih hl,
      List.cons_append]

/-- The colons between the names of a qualified one. -/
theorem colons : Spaced "::".toList := ⟨fun _ => rfl, by decide⟩

/-- The blank behind a comma is put back. -/
theorem comma : Spaced ", ".toList := ⟨fun _ => by simp [respaced], by decide⟩

/-- The blank behind a semicolon is put back. -/
theorem semicolon : Spaced "; ".toList := ⟨fun _ => by simp [respaced], by decide⟩

/-- The blanks around an arrow are put back. -/
theorem arrow : Spaced " => ".toList := ⟨fun _ => rfl, by decide⟩

/-- The blanks around a brace are put back. -/
theorem brace : Spaced " \x7b ".toList := ⟨fun _ => by simp [respaced], by decide⟩

/-- The colon of a member, in front of a text that does not begin with one. -/
theorem colon (h : Spaced l) {c : Char} {tail : List Char} (hl : l = c :: tail) (hc : c ≠ ':')
    (hblank : c ≠ ' ') : Spaced (": ".toList ++ l) := by
  subst hl
  refine ⟨fun rest => ?_, by simpa using h.undollared⟩
  have hregains := h.regains rest
  have hfilter : (c :: tail).filter (· ≠ ' ') = c :: tail.filter (· ≠ ' ') :=
    List.filter_cons_of_pos (by simpa using hblank)
  rw [hfilter, List.cons_append] at hregains
  rw [List.filter_append, hfilter]
  change respaced (':' :: c :: (tail.filter (· ≠ ' ') ++ rest)) = _
  rw [respaced_colon hc, hregains]
  rfl

/-- Texts with commas in between. -/
theorem join {texts : List String} (h : ∀ x ∈ texts, Spaced x.toList) :
    Spaced (Text.join ", " texts).toList := by
  induction texts with
  | nil => exact .nil
  | cons x rest ih =>
    obtain ⟨hx, hrest⟩ := List.forall_mem_cons.1 h
    cases rest with
    | nil => exact hx
    | cons y rest =>
      rw [Text.join, String.toList_append, String.toList_append]
      · exact (hx.append .comma).append (ih hrest)
      · simp

/-- Texts one after another. -/
theorem flatMap {α : Type} {items : List α} {f : α → List Char} (h : ∀ a ∈ items, Spaced (f a)) :
    Spaced (items.flatMap f) := by
  induction items with
  | nil => exact .nil
  | cons a rest ih =>
    obtain ⟨ha, hrest⟩ := List.forall_mem_cons.1 h
    exact ha.append (ih hrest)

/-- A text is known by its part without blanks. -/
theorem inj (h : Spaced l) (h' : Spaced l') (heq : l.filter (· ≠ ' ') = l'.filter (· ≠ ' ')) : l = l' := by
  have hleft := h.regains []
  have hright := h'.regains []
  rw [heq] at hleft
  simpa [respaced] using hleft.symm.trans hright

end Spaced

/-! ## Mangled texts -/

/-- A text begins and ends with other characters than colons and blanks. -/
structure Framed (l : List Char) : Prop where
  first : ∃ c tail, l = c :: tail ∧ c ≠ ':' ∧ c ≠ ' '
  last : ∃ front c, l = front ++ [c] ∧ c ≠ ':' ∧ c ≠ ' '

namespace Framed

variable {l : List Char}

/-- A text is framed by its first and its last sign. -/
theorem between {c c' : Char} (h : c ≠ ':' ∧ c ≠ ' ') (h' : c' ≠ ':' ∧ c' ≠ ' ') (l : List Char) :
    Framed (c :: (l ++ [c'])) :=
  ⟨⟨c, _, rfl, h⟩, ⟨c :: l, c', rfl, h'⟩⟩

/-- What stands in front of a text begins as it does. -/
theorem prepend (h : Framed l) {front : List Char} (hfront : ∃ c tail, front = c :: tail ∧ c ≠ ':' ∧ c ≠ ' ') :
    Framed (front ++ l) := by
  obtain ⟨c, tail, rfl, hc⟩ := hfront
  obtain ⟨front, c', rfl, hc'⟩ := h.last
  exact ⟨⟨c, _, rfl, hc⟩, ⟨c :: (tail ++ front), c', by simp, hc'⟩⟩

/-- What stands behind a text ends as it does. -/
theorem append (h : Framed l) {back : List Char} (hback : ∃ front c, back = front ++ [c] ∧ c ≠ ':' ∧ c ≠ ' ') :
    Framed (l ++ back) := by
  obtain ⟨front, c, rfl, hc⟩ := hback
  obtain ⟨c', tail, rfl, hc'⟩ := h.first
  exact ⟨⟨c', _, rfl, hc'⟩, ⟨c' :: (tail ++ front), c, by simp, hc⟩⟩

end Framed

/-- A text that is known by its part without blanks. -/
structure Legible (text : String) : Prop where
  spaced : Spaced text.toList
  framed : Framed text.toList

/-- A sign of a word has no blanks around it, and is neither a dollar sign nor a colon. -/
theorem isTight_of_isWordChar {c : Char} (h : IsWordChar c) : IsTight c ∧ c ≠ '$' ∧ c ≠ ':' := by
  have hsign (sign : Char) (hsign : ¬ IsWordChar sign) : c ≠ sign := fun heq => hsign (heq ▸ h)
  exact ⟨⟨hsign _ (by decide), hsign _ (by decide), hsign _ (by decide), hsign _ (by decide),
    hsign _ (by decide), hsign _ (by decide)⟩, hsign _ (by decide), hsign _ (by decide)⟩

/-- A plain name is legible. -/
theorem IsPlain.legible {name : String} (h : IsPlain name) : Legible name := by
  obtain ⟨hne, hchars⟩ := h
  have hlist : name.toList ≠ [] := by simpa using hne
  have hends (c : Char) (hc : c ∈ name.toList) : c ≠ ':' ∧ c ≠ ' ' :=
    have htight := isTight_of_isWordChar (hchars c hc)
    ⟨htight.2.2, htight.1.1⟩
  refine ⟨.tight fun c hc => (isTight_of_isWordChar (hchars c hc)).imp_right And.left, ?_, ?_⟩
  · obtain ⟨c, tail, hl⟩ := List.exists_cons_of_ne_nil hlist
    exact ⟨c, tail, hl, hends c (by simp [hl])⟩
  · exact ⟨_, _, (List.dropLast_concat_getLast hlist).symm, hends _ (List.getLast_mem hlist)⟩

/-- A qualified name of plain names is legible. -/
theorem IsQualified.legible {q : String} (h : IsQualified IsPlain q) : Legible q := by
  induction h with
  | name h => exact h.legible
  | nested _ h ih =>
    refine ⟨?_, ?_⟩
    all_goals rw [String.toList_append, String.toList_append]
    · exact (ih.spaced.append .colons).append h.legible.spaced
    · rw [List.append_assoc]
      obtain ⟨front, c, hl, hc⟩ := h.legible.framed.last
      exact ih.framed.append ⟨"::".toList ++ front, c, by rw [hl, List.append_assoc], hc⟩

/-- A numeral is a plain name. -/
theorem isPlain_repr (n : Nat) : IsPlain (Nat.repr n) := by
  refine ⟨fun h => ?_, fun c hc => ?_⟩
  · have := Nat.length_repr_pos (n := n)
    simp [h] at this
  · rw [Nat.toList_repr] at hc
    have hdigit := Nat.isDigit_of_mem_toDigits (by decide) (by decide) hc
    simp [IsWordChar, Char.isAlphanum, hdigit]

/-- A numeral is legible. -/
theorem legible_repr (n : Nat) : Legible (Nat.repr n) := (isPlain_repr n).legible

/-- The text of an array length is legible. -/
theorem spaced_lengthText (length : Int) : Spaced (Store.lengthText length).toList := by
  unfold Store.lengthText Text.decimal
  split
  · exact .tight (by decide)
  · split
    · exact (legible_repr _).spaced
    · rw [String.toList_append]
      exact Spaced.append (.tight (by decide)) (legible_repr _).spaced

/-- A list of legible texts between angle brackets is legible. -/
theorem legible_bracket {as : List String} (has : ∀ a ∈ as, Legible a) : Legible (Store.bracket as) := by
  refine ⟨?_, ?_⟩
  all_goals rw [Store.bracket, String.toList_append, String.toList_append]
  · exact (Spaced.append (.tight (by decide)) (.join fun a ha => (has a ha).spaced)).append (.tight (by decide))
  · exact .between (by decide) (by decide) _

/-- Members with a blank in front of each and one behind the last have one in front of the first and
one behind each. -/
theorem flatMap_blank {α : Type} (items : List α) (f : α → List Char) (last : List Char) :
    items.flatMap (fun a => ' ' :: f a) ++ ' ' :: last =
      ' ' :: (items.flatMap (fun a => f a ++ [' ']) ++ last) := by
  induction items with
  | nil => rfl
  | cons a rest ih => simp [ih]

/-- The text of a struct is legible. -/
theorem legible_struct {members : List (String × String)} (hnames : ∀ m ∈ members, IsPlain m.1)
    (htypes : ∀ m ∈ members, Legible m.2) :
    Legible ("struct \x7b" ++ String.join (members.map fun m => " " ++ m.1 ++ ": " ++ m.2 ++ ";") ++
      " \x7d") := by
  let member (m : String × String) : List Char := m.1.toList ++ (": ".toList ++ m.2.toList) ++ "; ".toList
  have hmember (m : String × String) (hm : m ∈ members) : Spaced (member m) := by
    obtain ⟨c, tail, hl, hc, hblank⟩ := (htypes m hm).framed.first
    exact ((hnames m hm).legible.spaced.append ((htypes m hm).spaced.colon hl hc hblank)).append .semicolon
  have hlist : ("struct \x7b" ++ String.join (members.map fun m => " " ++ m.1 ++ ": " ++ m.2 ++ ";") ++
      " \x7d").toList = "struct".toList ++ " \x7b ".toList ++ members.flatMap member ++ ['\x7d'] := by
    have hblank := flatMap_blank members
      (fun m => m.1.toList ++ (": ".toList ++ m.2.toList) ++ [';']) ['\x7d']
    simpa [member, List.flatMap_map] using hblank
  refine ⟨?_, ?_⟩
  all_goals rw [hlist]
  · exact ((Spaced.append (.tight (by decide)) .brace).append (.flatMap hmember)).append (.tight (by decide))
  · exact .between (by decide) (by decide) _

/-- Mangled texts of plain names are legible. -/
theorem Mangled.legible {text : String} (h : Mangled IsPlain text) : Legible text := by
  induction h with
  | name h => exact h.legible
  | @var n h k =>
    have hsign : Legible ("#" ++ Nat.repr k) := by
      refine ⟨?_, ?_⟩
      all_goals rw [String.toList_append]
      · exact Spaced.append (.tight (by decide)) (legible_repr k).spaced
      · exact (legible_repr k).framed.prepend ⟨'#', [], rfl, by decide⟩
    rw [String.append_assoc]
    obtain rfl | h := h
    · simpa using hsign
    · refine ⟨?_, ?_⟩
      all_goals rw [String.toList_append]
      · exact h.legible.spaced.append hsign.spaced
      · exact h.legible.framed.append hsign.framed.last
  | pointer _ ih =>
    refine ⟨?_, ?_⟩
    all_goals rw [String.toList_append]
    · exact Spaced.append (.tight (by decide)) ih.spaced
    · exact ih.framed.prepend ⟨'*', [], rfl, by decide⟩
  | slice _ ih =>
    refine ⟨?_, ?_⟩
    all_goals rw [String.toList_append, String.toList_append]
    · exact (Spaced.append (.tight (by decide)) ih.spaced).append (.tight (by decide))
    · exact .between (by decide) (by decide) _
  | array _ length ih =>
    refine ⟨?_, ?_⟩
    all_goals simp only [String.toList_append]
    · exact (((Spaced.append (.tight (by decide)) ih.spaced).append .semicolon).append
        (spaced_lengthText length)).append (.tight (by decide))
    · exact .between (by decide) (by decide) _
  | struct hnames _ ih => exact legible_struct hnames ih
  | @function as r _ _ iha ihr =>
    have hlist : ("(" ++ Text.join ", " as ++ ") => " ++ r).toList =
        "(".toList ++ (Text.join ", " as).toList ++ ")".toList ++ " => ".toList ++ r.toList := by simp
    refine ⟨?_, ?_⟩
    all_goals rw [hlist]
    · exact (((Spaced.append (.tight (by decide)) (.join fun a ha => (iha a ha).spaced)).append
        (.tight (by decide))).append .arrow).append ihr.spaced
    · exact ihr.framed.prepend ⟨'(', _, rfl, by decide⟩
  | apply _ _ ihhead iha =>
    refine ⟨?_, ?_⟩
    all_goals rw [String.toList_append]
    · exact ihhead.spaced.append (legible_bracket iha).spaced
    · exact ihhead.framed.append (legible_bracket iha).framed.last
  | dot _ hm ihb =>
    refine ⟨?_, ?_⟩
    all_goals rw [String.toList_append, String.toList_append]
    · exact (ihb.spaced.append (.tight (by decide))).append hm.legible.spaced
    · exact (ihb.framed.append ⟨[], '.', rfl, by decide⟩).append hm.legible.framed.last
  | template _ _ iha ihb =>
    refine ⟨?_, ?_⟩
    all_goals rw [String.toList_append]
    · exact (legible_bracket iha).spaced.append ihb.spaced
    · exact ihb.framed.prepend (legible_bracket iha).framed.first

/-- Names of declarations and of instances are legible. -/
theorem Vocabulary.Names.legible {V : Vocabulary} (hV : V.accepts = IsPlain) {q : String}
    (h : V.Names q) : Legible q := by
  unfold Vocabulary.Names at h
  rw [hV] at h
  obtain h | ⟨p, texts, hp, htexts, rfl⟩ := h
  · exact h.legible
  · refine ⟨?_, ?_⟩
    all_goals rw [String.toList_append]
    · exact hp.legible.spaced.append (legible_bracket fun x hx => (htexts x hx).legible).spaced
    · exact hp.legible.framed.append (legible_bracket fun x hx => (htexts x hx).legible).framed.last

/-! ## Labels -/

/-- Legible names with the same label are the same. -/
theorem Legible.symbol_inj {p q : String} (hp : Legible p) (hq : Legible q)
    (h : Codegen.symbol p = Codegen.symbol q) : p = q :=
  String.toList_inj.1 (hp.spaced.inj hq.spaced (String.ofList_inj.1 h))

/-- The label of a legible name does not end in colons. -/
theorem Legible.symbol_ne {q front : String} (h : Legible q) : Codegen.symbol q ≠ front ++ ":" := by
  obtain ⟨before, c, hl, hcolon, hblank⟩ := h.framed.last
  intro heq
  have hlist := congrArg String.toList heq
  rw [Codegen.symbol, String.toList_ofList, hl, List.filter_append, String.toList_append] at hlist
  have hlast : [c].filter (· ≠ ' ') = [c] := by simpa using hblank
  rw [hlast] at hlist
  exact hcolon (by simpa using (List.append_inj' hlist rfl).2)

end Qll.Types
