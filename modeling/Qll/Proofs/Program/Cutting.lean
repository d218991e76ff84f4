import Qll.Proofs.Program.Lookup
import Qll.Proofs.Types.Spacing

/-!
# Cutting the names of instances

The name of an instance has the mangled texts of its arguments behind it, with names, lists and arrows
in them. It is cut where the name of its template is cut and nowhere else, since in every mangled text
the lists that are opened are closed, and no arrow closes one. Balance is what the cutting does with a
text in front of any other one, so each form of mangled texts is followed by one rule.
-/

namespace Qll.Program

open Qll.Types (Mangled Store IsPlain IsWordChar IsQualified)

/-! ## Reading signs -/

/-- A sign that has no meaning where names are cut. -/
def IsQuiet (c : Char) : Prop := c ≠ ':' ∧ c ≠ '<' ∧ c ≠ '>' ∧ c ≠ '='

instance (c : Char) : Decidable (IsQuiet c) :=
  inferInstanceAs (Decidable (c ≠ ':' ∧ c ≠ '<' ∧ c ≠ '>' ∧ c ≠ '='))

/-- The signs of words have no meaning where names are cut. -/
theorem isQuiet_of_isWordChar {c : Char} (h : IsWordChar c) : IsQuiet c := by
  have hsign (sign : Char) (hsign : ¬ IsWordChar sign) : c ≠ sign := fun heq => hsign (heq ▸ h)
  exact ⟨hsign _ (by decide), hsign _ (by decide), hsign _ (by decide), hsign _ (by decide)⟩

/-- All signs but colons are read one by one. -/
theorem splitFrom_cons {c : Char} (hc : c ≠ ':') (depth : Nat) (previous : Char) (part rest : List Char) :
    splitFrom depth previous part (c :: rest) =
      splitFrom (if c = '<' then depth + 1 else if c = '>' ∧ previous ≠ '=' then depth - 1 else depth) c
        (c :: part) rest := by
  rw [splitFrom]
  exact fun _ h => absurd h hc

/-- Quiet signs are read into the part they stand in. -/
theorem splitFrom_quiet {w : List Char} (hw : ∀ c ∈ w, IsQuiet c) (depth : Nat) {previous : Char}
    (hprevious : previous ≠ '=') (part rest : List Char) : ∃ previous', previous' ≠ '=' ∧
      splitFrom depth previous part (w ++ rest) = splitFrom depth previous' (w.reverse ++ part) rest := by
  induction w generalizing previous part with
  | nil => exact ⟨previous, hprevious, rfl⟩
  | cons c w ih =>
    obtain ⟨⟨hcolon, hopen, hclose, hequals⟩, hw⟩ := List.forall_mem_cons.1 hw
    obtain ⟨previous', hprevious', h⟩ := ih hw hequals (c :: part)
    refine ⟨previous', hprevious', ?_⟩
    rw [List.cons_append, splitFrom_cons hcolon, if_neg hopen, if_neg (by simp [hclose]), h]
    simp

/-! ## Texts inside a list of arguments -/

/-- Inside a list of arguments a text is passed over: nothing is cut off, and the lists that it opens it
closes. -/
def Passed (w : List Char) : Prop :=
  ∀ (depth : Nat) {previous : Char} (part rest : List Char), previous ≠ '=' → ∃ previous', previous' ≠ '=' ∧
    splitFrom (depth + 1) previous part (w ++ rest) =
      splitFrom (depth + 1) previous' (w.reverse ++ part) rest

namespace Passed

variable {w w' : List Char}

/-- Quiet signs are passed over. -/
theorem quiet (hw : ∀ c ∈ w, IsQuiet c) : Passed w := fun depth _ part rest hprevious =>
  splitFrom_quiet hw (depth + 1) hprevious part rest

/-- Texts that are passed over one by one are passed over together. -/
theorem append (h : Passed w) (h' : Passed w') : Passed (w ++ w') := by
  intro depth previous part rest hprevious
  obtain ⟨previous₁, hprevious₁, hfirst⟩ := h depth part (w' ++ rest) hprevious
  obtain ⟨previous₂, hprevious₂, hlast⟩ := h' depth (w.reverse ++ part) rest hprevious₁
  exact ⟨previous₂, hprevious₂, by rw [List.append_assoc, hfirst, hlast, List.reverse_append, List.append_assoc]⟩

/-- The separator cuts nothing off inside a list. -/
theorem separator : Passed separator.toList := by
  intro depth previous part rest _
  refine ⟨':', by decide, ?_⟩
  change splitFrom (depth + 1) previous part (':' :: ':' :: rest) = _
  rw [splitFrom, if_neg (Nat.succ_ne_zero depth)]
  rfl

/-- The colon of a member is no separator. -/
theorem colon : Passed ": ".toList := by
  intro depth previous part rest _
  refine ⟨' ', by decide, ?_⟩
  change splitFrom (depth + 1) previous part (':' :: ' ' :: rest) = _
  rw [splitFrom, splitFrom_cons (by decide)]
  · rfl
  · simp

/-- The arrow of a function type closes no list. -/
theorem arrow : Passed " => ".toList := by
  intro depth previous part rest _
  refine ⟨' ', by decide, ?_⟩
  change splitFrom (depth + 1) previous part (' ' :: '=' :: '>' :: ' ' :: rest) = _
  rw [splitFrom_cons (by decide), splitFrom_cons (by decide), splitFrom_cons (by decide),
    splitFrom_cons (by decide)]
  rfl

/-- Texts with commas in between. -/
theorem join {texts : List String} (h : ∀ x ∈ texts, Passed x.toList) :
    Passed (Text.join ", " texts).toList := by
  induction texts with
  | nil => exact .quiet (by decide)
  | cons x rest ih =>
    obtain ⟨hx, hrest⟩ := List.forall_mem_cons.1 h
    cases rest with
    | nil => exact hx
    | cons y rest =>
      rw [Text.join, String.toList_append, String.toList_append]
      · exact (hx.append (.quiet (by decide))).append (ih hrest)
      · simp

/-- Texts one after another. -/
theorem flatMap {α : Type} {items : List α} {f : α → List Char} (h : ∀ a ∈ items, Passed (f a)) :
    Passed (items.flatMap f) := by
  induction items with
  | nil => exact .quiet (by simp)
  | cons a rest ih =>
    obtain ⟨ha, hrest⟩ := List.forall_mem_cons.1 h
    exact ha.append (ih hrest)

end Passed

/-- A list of arguments is read in one piece, wherever it stands. -/
theorem splitFrom_bracket {as : List String} (has : ∀ a ∈ as, Passed a.toList) (depth : Nat)
    (previous : Char) (part rest : List Char) :
    splitFrom depth previous part ((Store.bracket as).toList ++ rest) =
      splitFrom depth '>' ((Store.bracket as).toList.reverse ++ part) rest := by
  have hlist : (Store.bracket as).toList = '<' :: ((Text.join ", " as).toList ++ ['>']) := by
    simp [Store.bracket]
  obtain ⟨previous', hprevious', h⟩ :=
    Passed.join has depth ('<' :: part) ('>' :: rest) (show '<' ≠ '=' by decide)
  rw [hlist, List.cons_append, splitFrom_cons (by decide), if_pos rfl, List.append_assoc, List.singleton_append, h,
    splitFrom_cons (by decide), if_neg (by decide), if_pos ⟨rfl, hprevious'⟩]
  simp

/-- A list of arguments is passed over if each of them is. -/
theorem passed_bracket {as : List String} (has : ∀ a ∈ as, Passed a.toList) :
    Passed (Store.bracket as).toList := fun depth _ part rest _ =>
  ⟨'>', by decide, splitFrom_bracket has (depth + 1) _ part rest⟩

/-! ## Mangled texts -/

/-- Plain names are passed over. -/
theorem passed_plain {name : String} (h : IsPlain name) : Passed name.toList :=
  .quiet fun c hc => isQuiet_of_isWordChar (h.2 c hc)

/-- Qualified names of plain parts are passed over. -/
theorem passed_qualified {q : String} (h : IsQualified IsPlain q) : Passed q.toList := by
  induction h with
  | name h => exact passed_plain h
  | nested _ h ih =>
    rw [String.toList_append, String.toList_append]
    exact (ih.append .separator).append (passed_plain h)

/-- Numerals are passed over. -/
theorem passed_repr (n : Nat) : Passed (Nat.repr n).toList := passed_plain (Types.isPlain_repr n)

/-- The text of an array length. -/
theorem passed_lengthText (length : Int) : Passed (Store.lengthText length).toList := by
  unfold Store.lengthText Text.decimal
  split
  · exact .quiet (by decide)
  · split
    · exact passed_repr _
    · rw [String.toList_append]
      exact .append (.quiet (by decide)) (passed_repr _)

/-- The mangled text of a type is passed over. -/
theorem passed_mangled {text : String} (h : Mangled IsPlain text) : Passed text.toList := by
  induction h with
  | name h => exact passed_qualified h
  | @var n h k =>
    simp only [String.toList_append]
    refine .append (.append ?_ (.quiet (by decide))) (passed_repr k)
    obtain rfl | h := h
    · exact .quiet (by decide)
    · exact passed_plain h
  | pointer _ ih =>
    rw [String.toList_append]
    exact .append (.quiet (by decide)) ih
  | slice _ ih =>
    simp only [String.toList_append]
    exact .append (.append (.quiet (by decide)) ih) (.quiet (by decide))
  | array _ length ih =>
    simp only [String.toList_append]
    exact .append (.append (.append (.append (.quiet (by decide)) ih) (.quiet (by decide)))
      (passed_lengthText length)) (.quiet (by decide))
  | @struct members hnames _ ih =>
    have hmembers : (String.join (members.map fun m => " " ++ m.1 ++ ": " ++ m.2 ++ ";")).toList =
        members.flatMap fun m => " ".toList ++ m.1.toList ++ ": ".toList ++ m.2.toList ++ ";".toList := by
      simp [List.flatMap_map]
    rw [String.toList_append, String.toList_append, hmembers]
    refine .append (.append (.quiet (by decide)) (.flatMap fun m hm => ?_)) (.quiet (by decide))
    exact .append (.append (.append (.append (.quiet (by decide)) (passed_plain (hnames m hm))) .colon)
      (ih m hm)) (.quiet (by decide))
  | @function as r _ _ iha ihr =>
    have hlist : ("(" ++ Text.join ", " as ++ ") => " ++ r).toList =
        "(".toList ++ (Text.join ", " as).toList ++ ")".toList ++ " => ".toList ++ r.toList := by simp
    rw [hlist]
    exact .append (.append (.append (.append (.quiet (by decide)) (.join iha)) (.quiet (by decide))) .arrow) ihr
  | apply _ _ ihhead iha =>
    rw [String.toList_append]
    exact ihhead.append (passed_bracket iha)
  | dot _ hm ihb =>
    simp only [String.toList_append]
    exact .append (.append ihb (.quiet (by decide))) (passed_plain hm)
  | template _ _ iha ihb =>
    rw [String.toList_append]
    exact .append (passed_bracket iha) ihb

/-! ## Names with keys -/

/-- A text that stays in one piece behind a name. -/
def Uncut (key : String) : Prop := ∀ (previous : Char) (part : List Char),
  splitFrom 0 previous part key.toList = [String.ofList (part.reverse ++ key.toList)]

/-- No text at all stays in one piece. -/
theorem uncut_empty : Uncut "" := fun previous part => by
  simp [splitFrom]

/-- The key of an instance stays in one piece. -/
theorem uncut_bracket {texts : List String} (htexts : ∀ x ∈ texts, Mangled IsPlain x) :
    Uncut (Store.bracket texts) := by
  intro previous part
  have h := splitFrom_bracket (fun x hx => passed_mangled (htexts x hx)) 0 previous part []
  rw [List.append_nil] at h
  rw [h, splitFrom]
  simp

/-- Names put together with separators are cut apart again, also in front of the key of an instance. -/
theorem splitFrom_joined {path : List String} {name key : String} (hplain : ∀ p ∈ path ++ [name], IsPlain p)
    (hkey : Uncut key) {previous : Char} (hprevious : previous ≠ '=') :
    splitFrom 0 previous [] (joined (path ++ [name]) ++ key.toList) = path ++ [name ++ key] := by
  have hquiet {p : String} (hp : IsPlain p) : ∀ c ∈ p.toList, IsQuiet c :=
    fun c hc => isQuiet_of_isWordChar (hp.2 c hc)
  induction path generalizing previous with
  | nil =>
    obtain ⟨previous', -, h⟩ := splitFrom_quiet (hquiet (hplain name (by simp))) 0 hprevious [] key.toList
    rw [List.nil_append, joined, h, hkey]
    simp
  | cons p path ih =>
    obtain ⟨hp, hrest⟩ := List.forall_mem_cons.1 hplain
    obtain ⟨previous', -, h⟩ := splitFrom_quiet (hquiet hp) 0 hprevious []
      (separator.toList ++ (joined (path ++ [name]) ++ key.toList))
    rw [List.cons_append, joined_cons (by simp), List.append_assoc, List.append_assoc, h]
    change splitFrom 0 previous' _ (':' :: ':' :: (joined (path ++ [name]) ++ key.toList)) = _
    rw [splitFrom, if_pos rfl, ih hrest (by decide)]
    simp

/-- A last part stands behind a separator of its own. -/
theorem joined_concat {parts : List String} (hne : parts ≠ []) (name : String) :
    joined (parts ++ [name]) = joined parts ++ separator.toList ++ name.toList := by
  induction parts with
  | nil => exact absurd rfl hne
  | cons p rest ih =>
    by_cases hrest : rest = []
    · subst hrest
      rfl
    · rw [List.cons_append, joined_cons (by simp), joined_cons hrest, ih hrest]
      simp

/-- The characters of names with separators in between. -/
theorem toList_join (parts : List String) : (Text.join separator parts).toList = joined parts := by
  induction parts with
  | nil => rfl
  | cons p rest ih =>
    cases rest with
    | nil => rfl
    | cons q rest =>
      rw [Text.join, String.toList_append, String.toList_append, ih]
      · rfl
      · simp

end Qll.Program
