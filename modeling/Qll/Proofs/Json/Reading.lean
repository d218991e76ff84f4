import Mathlib.Tactic.Common
import Mathlib.Tactic.SplitIfs
import Qll.Json.Parser
import Qll.Json.Printer

/-!
# Reading back what was written in JSON

A text without blanks leads back to its value. An escape stands for one character, so a string is
read character by character up to its closing quote, and a numeral ends where what follows is no
part of one. Numbers are whole here: other spellings are never written. The reader spends one unit
of its fuel on every character of a string and on every item and field, so it never needs more than
two for each character of the text.
-/

namespace Qll.Json

/-! ## Strings -/

/-- A string is written as the row of its escapes between two quotes. -/
theorem toList_escape (s : String) :
    (escape s).toList = '"' :: ((s.toList.flatMap fun c => (escapeChar c).toList) ++ ['"']) := by
  have hfold (cs : List Char) (done : String) :
      (cs.foldl (fun done c => done ++ escapeChar c) done).toList =
        done.toList ++ cs.flatMap fun c => (escapeChar c).toList := by
    induction cs generalizing done with
    | nil => simp
    | cons c cs ih =>
      rw [List.foldl_cons, ih, String.toList_append, List.flatMap_cons, List.append_assoc]
  rw [escape, String.foldl_eq_foldl_toList, String.toList_append, String.toList_append, hfold]
  rfl

/-- A hexadecimal digit has the value that it is written for. -/
theorem hexDigit_digitChar : ∀ d < 16, Text.hexDigit (Nat.digitChar d) = d := by decide

/-- What a hexadecimal digit is written as is one. -/
theorem isHexDigit_digitChar : ∀ d < 16, isHexDigit (Nat.digitChar d) = true := by decide

/-- A number below 65536 is padded to its four hexadecimal digits. -/
theorem toList_hexPadded {n : Nat} (h : n < 65536) : (Text.hexPadded 4 n).toList =
    [Nat.digitChar (n / 4096), Nat.digitChar (n / 256 % 16), Nat.digitChar (n / 16 % 16),
      Nat.digitChar (n % 16)] := by
  have hpadded : (Text.hexPadded 4 n).toList =
      List.replicate (4 - (Nat.toDigits 16 n).length) '0' ++ Nat.toDigits 16 n := by
    simp [Text.hexPadded, Text.hex, Text.replicate]
  have hlast {m : Nat} (hm : m < 16) : Nat.toDigits 16 m = [Nat.digitChar m] := by
    rw [Nat.toDigits_eq_if (by decide), if_pos hm]
  have hmore {m : Nat} (hm : ¬ m < 16) :
      Nat.toDigits 16 m = Nat.toDigits 16 (m / 16) ++ [Nat.digitChar (m % 16)] := by
    rw [Nat.toDigits_eq_if (by decide), if_neg hm]
  rw [hpadded]
  -- One case for each number of digits that are not padding.
  by_cases h₁ : n < 16
  · have : n / 4096 = 0 ∧ n / 256 % 16 = 0 ∧ n / 16 % 16 = 0 ∧ n % 16 = n := by omega
    rw [hlast h₁, this.1, this.2.1, this.2.2.1, this.2.2.2]
    rfl
  by_cases h₂ : n / 16 < 16
  · have : n / 4096 = 0 ∧ n / 256 % 16 = 0 ∧ n / 16 % 16 = n / 16 := by omega
    rw [hmore h₁, hlast h₂, this.1, this.2.1, this.2.2]
    rfl
  by_cases h₃ : n / 16 / 16 < 16
  · have : n / 4096 = 0 ∧ n / 256 % 16 = n / 16 / 16 := by omega
    rw [hmore h₁, hmore h₂, hlast h₃, this.1, this.2]
    rfl
  · have : n / 4096 = n / 16 / 16 / 16 ∧ n / 256 = n / 16 / 16 := by omega
    rw [hmore h₁, hmore h₂, hmore h₃, hlast (by omega), this.1, this.2]
    rfl

/-- Four hexadecimal digits are read again. -/
theorem fourHex_hexPadded {n : Nat} (h : n < 65536) (rest : List Char) :
    fourHex ((Text.hexPadded 4 n).toList ++ rest) = some (n, rest) := by
  have h₃ : n / 4096 < 16 := by omega
  have h₂ : n / 256 % 16 < 16 := Nat.mod_lt _ (by decide)
  have h₁ : n / 16 % 16 < 16 := Nat.mod_lt _ (by decide)
  have h₀ : n % 16 < 16 := Nat.mod_lt _ (by decide)
  have hnumber :
      (((0 * 16 + n / 4096) * 16 + n / 256 % 16) * 16 + n / 16 % 16) * 16 + n % 16 = n := by omega
  simp only [toList_hexPadded h, List.cons_append, List.nil_append, fourHex, List.all_cons,
    List.all_nil, isHexDigit_digitChar _ h₃, isHexDigit_digitChar _ h₂, isHexDigit_digitChar _ h₁,
    isHexDigit_digitChar _ h₀, Bool.and_true, if_true, Text.hexNumber, List.foldl_cons,
    List.foldl_nil, hexDigit_digitChar _ h₃, hexDigit_digitChar _ h₂, hexDigit_digitChar _ h₁,
    hexDigit_digitChar _ h₀, hnumber]

/-- Below the surrogates a number stands for its character. -/
theorem escapedChar_eq {n : Nat} (h : n < 0xD800) (rest : List Char) :
    escapedChar n rest = (Char.ofNat n, rest) := by
  have hhigh : isHighSurrogate n = false := by simp [isHighSurrogate]; omega
  have hlow : isLowSurrogate n = false := by simp [isLowSurrogate]; omega
  simp [escapedChar, hhigh, hlow]

/-- A character below the surrogates is read back from its number. -/
theorem parseChars_numbered {c : Char} (h : c.toNat < 0xD800) (fuel : Nat) (rest done : List Char) :
    parseChars (fuel + 1) (("\\u" ++ Text.hexPadded 4 c.toNat).toList ++ rest) done =
      parseChars fuel rest (c :: done) := by
  rw [String.toList_append]
  change parseChars (fuel + 1) ('\\' :: 'u' :: ((Text.hexPadded 4 c.toNat).toList ++ rest)) done = _
  simp only [parseChars, fourHex_hexPadded (Nat.lt_trans h (by decide)), escapedChar_eq h,
    Char.ofNat_toNat]

/-- A character that needs no escape is read as it stands. -/
theorem parseChars_plain {c : Char} (hquote : c ≠ '"') (hslash : c ≠ '\\') (h : ¬ c.toNat < 0x20)
    (fuel : Nat) (rest done : List Char) :
    parseChars (fuel + 1) (c :: rest) done = parseChars fuel rest (c :: done) := by
  rw [parseChars, if_neg (by simp [h, hslash])]
  · exact hquote
  · exact fun _ _ h => absurd h hslash

/-- A character is read back from its escape. -/
theorem parseChars_escapeChar (c : Char) (fuel : Nat) (rest done : List Char) :
    parseChars (fuel + 1) ((escapeChar c).toList ++ rest) done =
      parseChars fuel rest (c :: done) := by
  unfold escapeChar
  by_cases hquote : c = '"'
  · subst hquote; rfl
  rw [if_neg hquote]
  by_cases hslash : c = '\\'
  · subst hslash; rfl
  rw [if_neg hslash]
  by_cases hline : c = '\n'
  · subst hline; rfl
  rw [if_neg hline]
  by_cases hreturn : c = '\r'
  · subst hreturn; rfl
  rw [if_neg hreturn]
  by_cases htab : c = '\t'
  · subst htab; rfl
  rw [if_neg htab]
  dsimp only
  by_cases hback : c.toNat = 8
  · rw [if_pos hback, ← Char.ofNat_toNat c, hback]; rfl
  rw [if_neg hback]
  by_cases hfeed : c.toNat = 12
  · rw [if_pos hfeed, ← Char.ofNat_toNat c, hfeed]; rfl
  rw [if_neg hfeed]
  split
  next h =>
    have hsmall : c.toNat < 0xD800 := by
      rcases h with h | rfl | rfl | rfl | h | h
      · omega
      · decide
      · decide
      · decide
      · omega
      · omega
    exact parseChars_numbered hsmall fuel rest done
  next h =>
    have hself : c.toString.toList = [c] := by simp
    rw [hself, List.singleton_append]
    exact parseChars_plain hquote hslash (fun hlow => h (.inl hlow)) fuel rest done

/-- The characters of a string are read back up to the closing quote. -/
theorem parseChars_escape (cs : List Char) {fuel : Nat} (rest done : List Char)
    (hfuel : cs.length < fuel) :
    parseChars fuel ((cs.flatMap fun c => (escapeChar c).toList) ++ '"' :: rest) done =
      some (String.ofList (done.reverse ++ cs), rest) := by
  induction cs generalizing fuel done with
  | nil =>
    obtain ⟨fuel, rfl⟩ := Nat.exists_eq_add_of_lt hfuel
    simp [parseChars]
  | cons c cs ih =>
    obtain ⟨fuel, rfl⟩ := Nat.exists_eq_add_one.2 (Nat.zero_lt_of_lt hfuel)
    rw [List.flatMap_cons, List.append_assoc, parseChars_escapeChar, ih]
    · simp
    · simpa using hfuel

/-- A string at the front. -/
theorem parseChars_text (s : String) (fuel : Nat) (rest : List Char)
    (hfuel : s.toList.length < fuel) : ∃ more, (escape s).toList ++ rest = '"' :: more ∧
      parseChars fuel more [] = some (s, rest) := by
  refine ⟨_, by rw [toList_escape, List.cons_append], ?_⟩
  rw [List.append_assoc, List.singleton_append, parseChars_escape _ _ _ hfuel, List.reverse_nil,
    List.nil_append, String.ofList_toList]

/-- Every character is written as something. -/
theorem length_escapeChar_pos (c : Char) : 0 < (escapeChar c).toList.length := by
  refine List.length_pos_iff.2 fun hnone => ?_
  have hread := parseChars_escapeChar c 1 ['"'] []
  rw [hnone] at hread
  simp [parseChars] at hread

/-- No escape is shorter than its character. -/
theorem length_le_escape (s : String) : s.toList.length + 2 ≤ (escape s).toList.length := by
  have hescapes (cs : List Char) :
      cs.length ≤ (cs.flatMap fun c => (escapeChar c).toList).length := by
    induction cs with
    | nil => exact Nat.le_refl 0
    | cons c cs ih =>
      have := length_escapeChar_pos c
      rw [List.flatMap_cons, List.length_append, List.length_cons]
      omega
  have := hescapes s.toList
  rw [toList_escape, List.length_cons, List.length_append, List.length_singleton]
  omega

/-! ## Numbers -/

/-- What may follow a value. -/
def Stops (rest : List Char) : Prop := ∀ c ∈ rest.head?, c ∈ [',', ']', '\x7d', '\n']

/-- Numbers stop at what may follow them. -/
theorem stops_cons {c : Char} (h : c ∈ [',', ']', '\x7d', '\n']) (rest : List Char) :
    Stops (c :: rest) := by
  intro d hd
  rwa [← Option.some.inj hd]

/-- Nothing, or one of four characters. -/
theorem Stops.cases {rest : List Char} (h : Stops rest) : rest = [] ∨ ∃ more,
    rest = ',' :: more ∨ rest = ']' :: more ∨ rest = '\x7d' :: more ∨ rest = '\n' :: more := by
  cases rest with
  | nil => exact .inl rfl
  | cons c rest =>
    have hc := h c rfl
    simp only [List.mem_cons, List.not_mem_nil, or_false] at hc
    exact .inr ⟨rest, by simpa using hc⟩

/-- A number that stops has no fraction. -/
theorem fraction_stop {rest : List Char} (h : Stops rest) : fraction rest = some ([], rest) := by
  obtain rfl | ⟨more, rfl | rfl | rfl | rfl⟩ := h.cases <;> rfl

/-- A number that stops has no exponent. -/
theorem exponent_stop {rest : List Char} (h : Stops rest) : exponent rest = some ([], rest) := by
  obtain rfl | ⟨more, rfl | rfl | rfl | rfl⟩ := h.cases <;> rfl

/-- The digits in front of what may follow a value. -/
theorem someDigits_append {digits rest : List Char} (hdigits : ∀ c ∈ digits, c.isDigit)
    (hsome : digits ≠ []) (hrest : Stops rest) :
    someDigits (digits ++ rest) = some (digits, rest) := by
  have htake : rest.takeWhile Char.isDigit = [] := by
    obtain rfl | ⟨more, rfl | rfl | rfl | rfl⟩ := hrest.cases <;> rfl
  have hdrop : rest.dropWhile Char.isDigit = rest := by
    obtain rfl | ⟨more, rfl | rfl | rfl | rfl⟩ := hrest.cases <;> rfl
  unfold someDigits
  rw [List.takeWhile_append_of_pos hdigits, List.dropWhile_append_of_pos hdigits, htake, hdrop,
    List.append_nil]
  cases digits with
  | nil => exact absurd rfl hsome
  | cons d digits => rfl

/-- Only zero is written as the digit zero. -/
theorem digitChar_eq_zero : ∀ d < 10, Nat.digitChar d = '0' → d = 0 := by decide

/-- Only the numeral of zero starts with a zero. -/
theorem eq_zero_of_toDigits {n : Nat} {more : List Char} (h : Nat.toDigits 10 n = '0' :: more) :
    n = 0 := by
  induction n using Nat.strongRecOn generalizing more with
  | ind n ih =>
    rw [Nat.toDigits_eq_if (by decide)] at h
    split at h
    next hn => exact digitChar_eq_zero n hn (List.cons.inj h).1
    next hn =>
      cases hd : Nat.toDigits 10 (n / 10) with
      | nil => exact absurd hd Nat.toDigits_ne_nil
      | cons d ds =>
        rw [hd, List.cons_append] at h
        have := ih (n / 10) (by omega) (hd.trans (by rw [(List.cons.inj h).1]))
        omega

/-- The digits of a number are its whole part. -/
theorem wholePart_repr (n : Nat) {rest : List Char} (h : Stops rest) :
    wholePart ((Nat.repr n).toList ++ rest) = some ((Nat.repr n).toList, rest) := by
  rw [Nat.toList_repr]
  by_cases hn : n = 0
  · subst hn
    rfl
  · have hwhole : wholePart (Nat.toDigits 10 n ++ rest) =
        someDigits (Nat.toDigits 10 n ++ rest) := by
      unfold wholePart
      split
      next hzero =>
        cases hd : Nat.toDigits 10 n with
        | nil => exact absurd hd Nat.toDigits_ne_nil
        | cons d ds =>
          rw [hd, List.cons_append] at hzero
          rw [(List.cons.inj hzero).1] at hd
          exact absurd (eq_zero_of_toDigits hd) hn
      · rfl
    rw [hwhole]
    exact someDigits_append (fun c hc => Nat.isDigit_of_mem_toDigits (by decide) (by decide) hc)
      Nat.toDigits_ne_nil h

/-- A number is read again from its digits. -/
theorem unsigned_repr (n : Nat) {rest : List Char} (h : Stops rest) :
    unsigned ((Nat.repr n).toList ++ rest) = some ((Nat.repr n).toList, rest) := by
  simp only [unsigned, wholePart_repr n h, fraction_stop h, exponent_stop h, Option.bind_eq_bind,
    Option.bind_some, List.append_nil]
  rfl

/-- A negative number is written as a sign and the digits of its magnitude. -/
theorem decimal_negSucc (n : Nat) :
    (Text.decimal (.negSucc n)).toList = '-' :: (Nat.repr (n + 1)).toList := by
  rw [Text.decimal, String.toList_append]
  rfl

/-- How a numeral starts. -/
def StartsNumber (c : Char) : Prop := c = '-' ∨ c.isDigit

/-- A numeral starts like nothing else. -/
theorem StartsNumber.ne {c : Char} (h : StartsNumber c) :
    ∀ d ∈ [' ', '\t', '\n', '\r', '"', '[', ']', '\x7b', 't', 'f', 'n'], c ≠ d := by
  have hnone : ∀ d ∈ [' ', '\t', '\n', '\r', '"', '[', ']', '\x7b', 't', 'f', 'n'],
      ¬ (d = '-' ∨ d.isDigit) := by simp
  rintro d hd rfl
  exact hnone c hd h

/-- A number does not start with a blank. -/
theorem StartsNumber.isBlank {c : Char} (h : StartsNumber c) : isBlank c = false := by
  simp [Json.isBlank, h.ne]

/-- A number starts with a digit. -/
theorem repr_cons (n : Nat) : ∃ c more, (Nat.repr n).toList = c :: more ∧ c.isDigit := by
  rw [Nat.toList_repr]
  cases h : Nat.toDigits 10 n with
  | nil => exact absurd h Nat.toDigits_ne_nil
  | cons c more =>
    exact ⟨c, more, rfl,
      Nat.isDigit_of_mem_toDigits (by decide) (by decide) (h ▸ List.mem_cons_self)⟩

/-- A decimal starts with what a number starts with. -/
theorem decimal_cons (i : Int) :
    ∃ c more, (Text.decimal i).toList = c :: more ∧ StartsNumber c := by
  cases i with
  | ofNat n =>
    obtain ⟨c, more, hdigits, hc⟩ := repr_cons n
    exact ⟨c, more, hdigits, .inr hc⟩
  | negSucc n => exact ⟨'-', _, decimal_negSucc n, .inl rfl⟩

/-- A number is read back from its numeral. -/
theorem parseNumber_decimal (i : Int) {rest : List Char} (h : Stops rest) :
    parseNumber ((Text.decimal i).toList ++ rest) = some (.int i, rest) := by
  cases i with
  | ofNat n =>
    have hnot (more : List Char) : (Nat.repr n).toList ++ rest ≠ '-' :: more := by
      obtain ⟨c, digits, hdigits, hc⟩ := repr_cons n
      rw [hdigits, List.cons_append]
      intro hminus
      rw [(List.cons.inj hminus).1] at hc
      exact absurd hc (by decide)
    have hread : parseNumber ((Nat.repr n).toList ++ rest) =
        (unsigned ((Nat.repr n).toList ++ rest)).map
          fun read => (.number (String.ofList read.1), read.2) := by
      unfold parseNumber
      split
      next hminus => exact absurd hminus (hnot _)
      · rfl
    rw [Value.int, Text.decimal, hread, unsigned_repr n h, Option.map_some]
    dsimp only
    rw [String.ofList_toList]
  | negSucc n =>
    rw [decimal_negSucc, List.cons_append, parseNumber, unsigned_repr _ h, Option.map_some]
    dsimp only
    rw [← decimal_negSucc, String.ofList_toList, Value.int]

/-! ## Values -/

namespace Value

/-- A value whose numbers are whole, and spelled as they are written. -/
inductive Whole : Value → Prop
  | null : Whole null
  | bool (b : Bool) : Whole (bool b)
  | int (i : Int) : Whole (int i)
  | string (s : String) : Whole (string s)
  | array {items : List Value} (h : ∀ v ∈ items, Whole v) : Whole (array items)
  | object {fields : List (String × Value)} (h : ∀ f ∈ fields, Whole f.2) : Whole (object fields)

mutual

/-- How deep arrays and objects are nested. -/
def depth : Value → Nat
  | array items => 1 + itemsDepth items
  | object fields => 1 + fieldsDepth fields
  | _ => 0

/-- How deep the items of an array are nested. -/
def itemsDepth : List Value → Nat
  | [] => 0
  | v :: rest => max v.depth (itemsDepth rest)

/-- How deep the fields of an object are nested. -/
def fieldsDepth : List (String × Value) → Nat
  | [] => 0
  | (_, v) :: rest => max v.depth (fieldsDepth rest)

end

end Value

/-- No blank is skipped in front of another character. -/
theorem skipBlanks_cons {c : Char} (h : isBlank c = false) (rest : List Char) :
    skipBlanks (c :: rest) = c :: rest := by
  rw [skipBlanks, List.dropWhile_cons_of_neg (by simp [h])]

/-- A number at the front. -/
theorem parseValue_int (i : Int) (fuel depth : Nat) {rest : List Char} (h : Stops rest) :
    parseValue (fuel + 1) depth ((Text.decimal i).toList ++ rest) = some (.int i, rest) := by
  rw [← parseNumber_decimal i h]
  obtain ⟨c, more, hdigits, hc⟩ := decimal_cons i
  rw [hdigits, List.cons_append, parseValue, skipBlanks_cons hc.isBlank]
  split
  next h => exact absurd (List.cons.inj h).1 (hc.ne _ (by decide))
  next h => exact absurd (List.cons.inj h).1 (hc.ne _ (by decide))
  next h => exact absurd (List.cons.inj h).1 (hc.ne _ (by decide))
  next h => exact absurd (List.cons.inj h).1 (hc.ne _ (by decide))
  next h => exact absurd (List.cons.inj h).1 (hc.ne _ (by decide))
  next h => exact absurd (List.cons.inj h).1 (hc.ne _ (by decide))
  · rfl

/-- A list is written in square brackets. -/
theorem toList_array (items : List Value) (rest : List Char) :
    (Value.array items).compact.toList ++ rest =
      '[' :: ((Value.compactItems items).toList ++ ']' :: rest) := by
  simp [Value.compact]

/-- An object is written in curly brackets. -/
theorem toList_object (fields : List (String × Value)) (rest : List Char) :
    (Value.object fields).compact.toList ++ rest =
      '\x7b' :: ((Value.compactFields fields).toList ++ '\x7d' :: rest) := by
  simp [Value.compact]

/-- Items of a list are separated by commas. -/
theorem toList_items (v w : Value) (items : List Value) :
    (Value.compactItems (v :: w :: items)).toList =
      v.compact.toList ++ ',' :: (Value.compactItems (w :: items)).toList := by
  simp [Value.compactItems]

/-- A field is written as its name, a colon and its value. -/
theorem toList_field (k : String) (v : Value) :
    (Value.compactFields [(k, v)]).toList = (escape k).toList ++ ':' :: v.compact.toList := by
  simp [Value.compactFields]

/-- Fields of an object are separated by commas. -/
theorem toList_fields (k : String) (v : Value) (f : String × Value)
    (fields : List (String × Value)) :
    (Value.compactFields ((k, v) :: f :: fields)).toList = (escape k).toList ++
      ':' :: (v.compact.toList ++ ',' :: (Value.compactFields (f :: fields)).toList) := by
  simp [Value.compactFields]

/-- A value starts with no blank, and not with the bracket that would end an array. -/
theorem compact_cons {v : Value} (h : v.Whole) :
    ∃ c more, v.compact.toList = c :: more ∧ isBlank c = false ∧ c ≠ ']' := by
  cases h with
  | null => exact ⟨'n', _, rfl, by decide⟩
  | bool b =>
    cases b with
    | true => exact ⟨'t', _, rfl, by decide⟩
    | false => exact ⟨'f', _, rfl, by decide⟩
  | int i =>
    obtain ⟨c, more, hdigits, hc⟩ := decimal_cons i
    exact ⟨c, more, hdigits, hc.isBlank, hc.ne _ (by decide)⟩
  | string s => exact ⟨'"', _, toList_escape s, by decide⟩
  | array h => exact ⟨'[', _, (List.append_nil _).symm.trans (toList_array _ _), by decide⟩
  | object h => exact ⟨'\x7b', _, (List.append_nil _).symm.trans (toList_object _ _), by decide⟩

/-- The items of a list start neither with a blank nor with the end of the list. -/
theorem compactItems_cons {v : Value} (h : v.Whole) (items : List Value) (rest : List Char) :
    ∃ c more, (Value.compactItems (v :: items)).toList ++ rest = c :: more ∧
      isBlank c = false ∧ c ≠ ']' := by
  obtain ⟨c, more, hcons, hc⟩ := compact_cons h
  cases items with
  | nil => exact ⟨c, more ++ rest, by rw [Value.compactItems, hcons, List.cons_append], hc⟩
  | cons w items =>
    exact ⟨c, _, by rw [toList_items, hcons, List.cons_append, List.cons_append], hc⟩

/-- The fields of an object start with a quotation mark. -/
theorem compactFields_cons (f : String × Value) (fields : List (String × Value))
    (rest : List Char) :
    ∃ more, (Value.compactFields (f :: fields)).toList ++ rest = '"' :: more := by
  cases fields with
  | nil => exact ⟨_, by rw [toList_field, toList_escape, List.cons_append, List.cons_append]⟩
  | cons g fields =>
    exact ⟨_, by rw [toList_fields, toList_escape, List.cons_append, List.cons_append]⟩

-- By recursion on the value. An array takes one unit of fuel for itself and leaves to its items two
-- for each of their characters and one more, which is what their brackets and commas are worth.
mutual

/-- A value is read back from its text. -/
theorem parseValue_compact : ∀ (v : Value), v.Whole → ∀ (fuel depth : Nat) (rest : List Char),
    v.depth ≤ depth → 2 * v.compact.toList.length ≤ fuel → Stops rest →
    parseValue fuel depth (v.compact.toList ++ rest) = some (v, rest)
  | .null, _, fuel + 1, _, _ => fun _ _ _ => rfl
  | .bool true, _, fuel + 1, _, _ => fun _ _ _ => rfl
  | .bool false, _, fuel + 1, _, _ => fun _ _ _ => rfl
  | .number literal, hv, fuel + 1, depth, rest => by
    intro _ _ hrest
    cases hv with
    | int i => exact parseValue_int i fuel depth hrest
  | .string s, _, fuel + 1, _, rest => by
    intro _ hfuel _
    rw [Value.compact] at hfuel ⊢
    have := length_le_escape s
    obtain ⟨more, htext, hread⟩ := parseChars_text s fuel rest (by omega)
    rw [htext, parseValue, skipBlanks_cons (by decide)]
    simp only [hread, Option.map_some]
  | .array [], _, fuel + 1, depth + 1, rest => fun _ _ _ => rfl
  | .array (v :: items), hv, fuel + 1, depth + 1, rest => by
    intro hdepth hfuel _
    cases hv with
    | array h =>
    rw [Value.depth] at hdepth
    rw [← List.append_nil (Value.compact _).toList, toList_array] at hfuel
    simp only [List.length_cons, List.length_append, List.length_nil] at hfuel
    have hread := parseItems_compact v items h fuel depth rest [] (by omega) (by omega)
    obtain ⟨c, more, hcons, hblank, hc⟩ := compactItems_cons (h v (by simp)) items (']' :: rest)
    rw [toList_array, parseValue, skipBlanks_cons (by decide)]
    rw [hcons] at hread ⊢
    simp only [skipBlanks_cons hblank]
    split
    next hclose => exact absurd (List.cons.inj hclose).1 hc
    · exact hread
  | .object [], _, fuel + 1, depth + 1, rest => fun _ _ _ => rfl
  | .object (f :: fields), hv, fuel + 1, depth + 1, rest => by
    intro hdepth hfuel _
    cases hv with
    | object h =>
    rw [Value.depth] at hdepth
    rw [← List.append_nil (Value.compact _).toList, toList_object] at hfuel
    simp only [List.length_cons, List.length_append, List.length_nil] at hfuel
    have hread := parseFields_compact f fields h fuel depth rest [] (by omega) (by omega)
    obtain ⟨more, hcons⟩ := compactFields_cons f fields ('\x7d' :: rest)
    rw [toList_object, parseValue, skipBlanks_cons (by decide)]
    rw [hcons] at hread ⊢
    simp only [skipBlanks_cons (show isBlank '"' = false by decide)]
    exact hread
  | .array items, _, _, 0, _ => fun hdepth => by simp [Value.depth] at hdepth
  | .object fields, _, _, 0, _ => fun hdepth => by simp [Value.depth] at hdepth
  | v, hv, 0, _, _ => by
    intro _ hfuel _
    obtain ⟨c, more, hcons, -⟩ := compact_cons hv
    simp [hcons] at hfuel

/-- The items of an array are read back from their texts. -/
theorem parseItems_compact : ∀ (v : Value) (items : List Value), (∀ w ∈ v :: items, w.Whole) →
    ∀ (fuel depth : Nat) (rest : List Char) (done : List Value),
    Value.itemsDepth (v :: items) ≤ depth →
    2 * (Value.compactItems (v :: items)).toList.length < fuel →
    parseItems fuel depth ((Value.compactItems (v :: items)).toList ++ ']' :: rest) done =
      some (.array (done.reverse ++ v :: items), rest)
  | _, _, _, 0, _, _, _ => fun _ hfuel => absurd hfuel (Nat.not_lt_zero _)
  | v, [], h, fuel + 1, depth, rest, done => by
    intro hdepth hfuel
    rw [Value.itemsDepth] at hdepth
    rw [Value.compactItems] at hfuel ⊢
    have hv := parseValue_compact v (h v (by simp)) fuel depth (']' :: rest) (by omega) (by omega)
      (stops_cons (by decide) rest)
    rw [parseItems, hv]
    simp only [skipBlanks_cons (show isBlank ']' = false by decide), List.reverse_cons]
  | v, w :: items, h, fuel + 1, depth, rest, done => by
    intro hdepth hfuel
    rw [Value.itemsDepth] at hdepth
    rw [toList_items, List.length_append, List.length_cons] at hfuel
    have hv := parseValue_compact v (h v (by simp)) fuel depth
      (',' :: ((Value.compactItems (w :: items)).toList ++ ']' :: rest)) (by omega) (by omega)
      (stops_cons (by decide) _)
    have hitems := parseItems_compact w items (fun u hu => h u (List.mem_cons_of_mem v hu))
      fuel depth rest (v :: done) (by omega) (by omega)
    rw [toList_items, List.append_assoc, List.cons_append, parseItems, hv]
    simp only [skipBlanks_cons (show isBlank ',' = false by decide), hitems, List.reverse_cons,
      List.append_assoc, List.singleton_append]

/-- The fields of an object are read back from their texts. -/
theorem parseFields_compact : ∀ (f : String × Value) (fields : List (String × Value)),
    (∀ g ∈ f :: fields, g.2.Whole) →
    ∀ (fuel depth : Nat) (rest : List Char) (done : List (String × Value)),
    Value.fieldsDepth (f :: fields) ≤ depth →
    2 * (Value.compactFields (f :: fields)).toList.length < fuel →
    parseFields fuel depth ((Value.compactFields (f :: fields)).toList ++ '\x7d' :: rest) done =
      some (.object (done.reverse ++ f :: fields), rest)
  | _, _, _, 0, _, _, _ => fun _ hfuel => absurd hfuel (Nat.not_lt_zero _)
  | (k, v), [], h, fuel + 1, depth, rest, done => by
    intro hdepth hfuel
    rw [Value.fieldsDepth] at hdepth
    rw [toList_field, List.length_append, List.length_cons] at hfuel
    have := length_le_escape k
    obtain ⟨more, htext, hname⟩ := parseChars_text k fuel
      (':' :: (v.compact.toList ++ '\x7d' :: rest)) (by omega)
    have hv := parseValue_compact v (h (k, v) (by simp)) fuel depth ('\x7d' :: rest) (by omega)
      (by omega) (stops_cons (by decide) rest)
    rw [toList_field, List.append_assoc, List.cons_append, htext, parseFields,
      skipBlanks_cons (by decide)]
    simp only [hname, skipBlanks_cons (show isBlank ':' = false by decide), hv,
      skipBlanks_cons (show isBlank '\x7d' = false by decide), List.reverse_cons]
  | (k, v), f :: fields, h, fuel + 1, depth, rest, done => by
    intro hdepth hfuel
    rw [Value.fieldsDepth] at hdepth
    rw [toList_fields, List.length_append, List.length_cons, List.length_append,
      List.length_cons] at hfuel
    have := length_le_escape k
    let after := (Value.compactFields (f :: fields)).toList ++ '\x7d' :: rest
    obtain ⟨more, htext, hname⟩ := parseChars_text k fuel
      (':' :: (v.compact.toList ++ ',' :: after)) (by omega)
    have hv := parseValue_compact v (h (k, v) (by simp)) fuel depth (',' :: after) (by omega)
      (by omega) (stops_cons (by decide) after)
    have hfields : parseFields fuel depth after ((k, v) :: done) = _ :=
      parseFields_compact f fields (fun g hg => h g (List.mem_cons_of_mem _ hg)) fuel depth rest
        ((k, v) :: done) (by omega) (by omega)
    rw [toList_fields, List.append_assoc, List.cons_append, List.append_assoc, List.cons_append,
      htext, parseFields, skipBlanks_cons (by decide)]
    simp only [hname, skipBlanks_cons (show isBlank ':' = false by decide), hv,
      skipBlanks_cons (show isBlank ',' = false by decide), hfields, List.reverse_cons,
      List.append_assoc, List.singleton_append]

end

/-- The first value of a text is the one that was written there, whatever may follow it. -/
theorem parseFirst_compact {v : Value} (hv : v.Whole) (hdepth : v.depth ≤ maxDepth)
    {rest : List Char} (hrest : Stops rest) : parseFirst (v.compact.toList ++ rest) = some v := by
  have hfuel : 2 * v.compact.toList.length ≤ 2 * (v.compact.toList ++ rest).length + 2 := by
    rw [List.length_append]
    omega
  rw [parseFirst, parseValue_compact v hv _ _ _ hdepth hfuel hrest, Option.map_some]

end Qll.Json
