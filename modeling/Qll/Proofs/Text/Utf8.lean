import Mathlib.Tactic.Common
import Qll.Text.Utf8

/-!
# Reading what was written in UTF-8

The bytes of a text are the bytes of its characters in order. The first of them tells how many
follow, so reading takes the characters off one by one, and every text is read back as it was
written.
-/

namespace Qll.Text

/-! ## Writing -/

/-- A list of bytes as it is held in one block. -/
theorem toList_block (block : ByteArray) : block.toList = block.data.toList := by
  have hsize : block.data.toList.length = block.size := rfl
  have hloop (n i : Nat) (done : List UInt8) (hn : block.size - i = n) :
      ByteArray.toList.loop block i done = done.reverse ++ block.data.toList.drop i := by
    induction n generalizing i done with
    | zero =>
      rw [ByteArray.toList.loop, if_neg (by omega), List.drop_eq_nil_of_le (by omega),
        List.append_nil]
    | succ n ih =>
      have hi : i < block.size := by omega
      have hlength : i < block.data.toList.length := hi
      have hbyte : block.get! i = block.data.toList[i] := by
        simpa [ByteArray.get!] using getElem!_pos block.data i hi
      have hdrop : block.data.toList.drop i = block.get! i :: block.data.toList.drop (i + 1) := by
        rw [hbyte, List.drop_eq_getElem_cons]
      rw [ByteArray.toList.loop, if_pos hi, ih (i + 1) _ (by omega), hdrop]
      simp
  exact hloop _ 0 [] rfl

/-- The bytes of a text are those of its characters. -/
theorem toBytes_eq (s : String) : toBytes s = s.toList.flatMap String.utf8EncodeChar := by
  rw [toBytes, String.toUTF8, toList_block, ← String.utf8Encode_toList, List.utf8Encode,
    List.toList_data_toByteArray]

/-- A text has as many bytes as its encoding takes. -/
theorem length_toBytes (s : String) : (toBytes s).length = s.utf8ByteSize := by
  rw [toBytes, String.toUTF8, toList_block]
  rfl

/-! ## Reading a character -/

/-- The bits of a character, put together from groups of six. -/
theorem charOfBits_eq {c : Char} {parts : List Nat}
    (h : parts.foldl (fun n part => n * 64 + part) 0 = c.toNat) : charOfBits parts = c := by
  rw [charOfBits, h, Char.ofNat_toNat]

/-- A byte that continues a sequence. -/
def IsTail (b : UInt8) : Prop := 0x80 ≤ b ∧ b ≤ 0xBF

section Lengths

variable {b c d e : UInt8} (rest : List UInt8)

/-- A byte below 0x80 is a character. -/
theorem leadingChar_one (hb : b < 0x80) : leadingChar b rest = (Char.ofNat b.toNat, 0) := by
  grind [leadingChar]

/-- A lead byte of two and a byte that continues it are a character. -/
theorem leadingChar_two (hb : 0xC2 ≤ b ∧ b < 0xE0) (hc : IsTail c) :
    leadingChar b (c :: rest) = (charOfBits [b.toNat % 32, c.toNat % 64], 1) := by
  grind [leadingChar, continues, secondBounds, lowBits, IsTail]

/-- A lead byte of three and two bytes that continue it are a character, unless that is overlong or a
surrogate. -/
theorem leadingChar_three (hb : 0xE0 ≤ b ∧ b < 0xF0) (hc : IsTail c) (hd : IsTail d)
    (hlow : b = 0xE0 → 0xA0 ≤ c) (hhigh : b = 0xED → c ≤ 0x9F) :
    leadingChar b (c :: d :: rest) =
      (charOfBits [b.toNat % 16, c.toNat % 64, d.toNat % 64], 2) := by
  grind [leadingChar, continues, secondBounds, lowBits, IsTail]

/-- A lead byte of four and three bytes that continue it are a character, unless that is overlong or too
large. -/
theorem leadingChar_four (hb : 0xF0 ≤ b ∧ b < 0xF5) (hc : IsTail c) (hd : IsTail d) (he : IsTail e)
    (hlow : b = 0xF0 → 0x90 ≤ c) (hhigh : b = 0xF4 → c ≤ 0x8F) :
    leadingChar b (c :: d :: e :: rest) =
      (charOfBits [b.toNat % 8, c.toNat % 64, d.toNat % 64, e.toNat % 64], 3) := by
  grind [leadingChar, continues, secondBounds, lowBits, IsTail]

end Lengths

/-- Six bits behind the mark make a byte that continues a sequence. -/
theorem isTail_ofNat (n : Nat) : IsTail (UInt8.ofNat (n % 64 + 128)) := by
  constructor <;> simp [UInt8.le_iff_toNat_le] <;> omega

/-- The bytes of a character lead back to it, whatever follows them. -/
theorem leadingChar_encode (c : Char) (rest : List UInt8) : ∃ b more,
    String.utf8EncodeChar c = b :: more ∧ leadingChar b (more ++ rest) = (c, more.length) := by
  obtain ⟨v, hv⟩ : ∃ v, c.toNat = v := ⟨_, rfl⟩
  have hvalid : v < 55296 ∨ 57343 < v ∧ v < 1114112 := hv ▸ c.valid
  have hc : c.val.toNat = v := hv
  unfold String.utf8EncodeChar
  simp only [hc]
  -- One case for each number of bytes; what is left is arithmetic on the groups of bits.
  split
  · refine ⟨_, _, rfl, ?_⟩
    have hbyte : (UInt8.ofNat v).toNat = v := by simp; omega
    rw [leadingChar_one, hbyte, ← hv, Char.ofNat_toNat]
    · rfl
    · simp [UInt8.lt_iff_toNat_lt]; omega
  split
  · refine ⟨_, _, rfl, ?_⟩
    rw [List.singleton_append, leadingChar_two _ _ (isTail_ofNat v), charOfBits_eq (c := c)]
    · rfl
    all_goals simp [UInt8.le_iff_toNat_le, UInt8.lt_iff_toNat_lt]; omega
  split
  · refine ⟨_, _, rfl, ?_⟩
    simp only [List.cons_append, List.nil_append]
    rw [leadingChar_three _ _ (isTail_ofNat _) (isTail_ofNat v), charOfBits_eq (c := c)]
    · rfl
    all_goals simp [UInt8.le_iff_toNat_le, UInt8.lt_iff_toNat_lt, ← UInt8.toNat_inj]; omega
  · refine ⟨_, _, rfl, ?_⟩
    simp only [List.cons_append, List.nil_append]
    rw [leadingChar_four _ _ (isTail_ofNat _) (isTail_ofNat _) (isTail_ofNat v),
      charOfBits_eq (c := c)]
    · rfl
    all_goals simp [UInt8.le_iff_toNat_le, UInt8.lt_iff_toNat_lt, ← UInt8.toNat_inj]; omega

/-! ## Reading a text -/

/-- Bytes that were already read are passed over. -/
theorem decodeFrom_skip (read rest : List UInt8) :
    decodeFrom read.length (read ++ rest) = decodeFrom 0 rest := by
  induction read with
  | nil => rfl
  | cons b read ih =>
    rw [List.length_cons, List.cons_append, decodeFrom]
    exact ih

/-- The characters of a text are read back. -/
theorem decodeFrom_encode (chars : List Char) :
    decodeFrom 0 (chars.flatMap String.utf8EncodeChar) = chars := by
  induction chars with
  | nil => rfl
  | cons c chars ih =>
    obtain ⟨b, more, hbytes, hleading⟩ :=
      leadingChar_encode c (chars.flatMap String.utf8EncodeChar)
    rw [List.flatMap_cons, hbytes, List.cons_append, decodeFrom, hleading]
    simp only [decodeFrom_skip, ih]

/-- A text is read back from its bytes. -/
theorem ofBytes_toBytes (s : String) : ofBytes (toBytes s) = s := by
  rw [ofBytes, toBytes_eq, decodeFrom_encode, String.ofList_toList]

/-! ## Sizes -/

/-- A character fills at most three bytes for each byte that it was read from. -/
theorem leadingChar_size (b : UInt8) (rest : List UInt8) :
    (leadingChar b rest).2 ≤ rest.length ∧
      (leadingChar b rest).1.utf8Size ≤ 3 * ((leadingChar b rest).2 + 1) := by
  have hreplacement : replacementChar.utf8Size ≤ 3 * (0 + 1) := by decide
  have hmore (c : Char) {n : Nat} (hn : 0 < n) : c.utf8Size ≤ 3 * (n + 1) := by
    have := c.utf8Size_le_four
    omega
  unfold leadingChar
  dsimp only
  split
  next hb =>
    refine ⟨Nat.zero_le _, ?_⟩
    have hsmall : ∀ n < 128, (Char.ofNat n).utf8Size ≤ 3 * (0 + 1) := by decide
    exact hsmall _ (UInt8.lt_iff_toNat_lt.1 hb)
  split
  · exact ⟨Nat.zero_le _, hreplacement⟩
  split
  · split
    · split
      · exact ⟨by simp, hmore _ (Nat.succ_pos _)⟩
      · exact ⟨Nat.zero_le _, hreplacement⟩
    · exact ⟨Nat.zero_le _, hreplacement⟩
  split
  · split
    · split
      · exact ⟨by simp, hmore _ (Nat.succ_pos _)⟩
      · exact ⟨Nat.zero_le _, hreplacement⟩
    · exact ⟨Nat.zero_le _, hreplacement⟩
  split
  · split
    · split
      · exact ⟨by simp, hmore _ (Nat.succ_pos _)⟩
      · exact ⟨Nat.zero_le _, hreplacement⟩
    · exact ⟨Nat.zero_le _, hreplacement⟩
  · exact ⟨Nat.zero_le _, hreplacement⟩

/-- What is decoded takes at most three bytes for each byte that is read. -/
theorem length_decodeFrom_le (skip : Nat) (bytes : List UInt8) (h : skip ≤ bytes.length) :
    ((decodeFrom skip bytes).flatMap String.utf8EncodeChar).length + 3 * skip ≤
      3 * bytes.length := by
  induction bytes generalizing skip with
  | nil =>
    obtain rfl := Nat.le_zero.1 h
    simp [decodeFrom]
  | cons b bytes ih =>
    cases skip with
    | zero =>
      have ⟨hskip, hsize⟩ := leadingChar_size b bytes
      have := ih _ hskip
      rw [decodeFrom, List.flatMap_cons, List.length_append, String.length_utf8EncodeChar,
        List.length_cons]
      omega
    | succ skip =>
      have := ih skip (Nat.le_of_succ_le_succ h)
      rw [decodeFrom, List.length_cons]
      omega

/-- What cannot be read takes three bytes for each byte of it. -/
theorem utf8ByteSize_ofBytes_le (bytes : List UInt8) :
    (ofBytes bytes).utf8ByteSize ≤ 3 * bytes.length := by
  rw [← length_toBytes, toBytes_eq, ofBytes, String.toList_ofList]
  exact length_decodeFrom_le 0 bytes (Nat.zero_le _)

end Qll.Text
