import Mathlib.Algebra.Group.Nat.Defs
import Mathlib.Tactic.Common
import Qll.MessagePack.Reader
import Qll.Proofs.Computation
import Qll.Proofs.Text.Utf8

/-!
# Reading back what was written in MessagePack

A reader undoes an encoding when it takes the bytes of a value off the front, gives the value, and
leaves what follows alone. Every length and every number has several forms; the code in front tells
which one was chosen, so each is read back as long as the format has a form for it: lengths fit 32
bits and numbers fit 64.
-/

namespace Qll.MessagePack

open Bytes (bigEndian ofBigEndian)
open Qll.Computation (except_bind_ok)

/-- A reader takes some bytes for a value, whatever follows them. -/
def Reads {α : Type} (x : Reader α) (bytes : List UInt8) (a : α) : Prop :=
  ∀ rest, x.run (bytes ++ rest) = .ok (a, rest)

/-- The lengths that the format has a form for are below this one. -/
def maxLength : Nat := 4294967296

namespace Reads

variable {α β : Type} {x : Reader α} {f : α → Reader β} {bytes more : List UInt8} {a : α} {b : β}

/-- Giving a value reads no bytes. -/
theorem pure (a : α) : Reads (Pure.pure a) [] a := fun _ => rfl

/-- The second part reads on where the first one stopped. -/
theorem bind (hx : Reads x bytes a) (hf : Reads (f a) more b) :
    Reads (x >>= f) (bytes ++ more) b := by
  intro rest
  rw [StateT.run_bind, List.append_assoc, hx]
  exact hf rest

/-- A part that reads nothing more. -/
theorem bind_nil (hx : Reads x bytes a) (hf : Reads (f a) [] b) : Reads (x >>= f) bytes b := by
  simpa using hx.bind hf

/-- A value is made of what was read. -/
theorem map (hx : Reads x bytes a) (g : α → β) :
    Reads (x >>= fun a => Pure.pure (g a)) bytes (g a) :=
  hx.bind_nil (f := fun a => Pure.pure (g a)) (pure (g a))

/-- What follows the code in front is chosen by it. -/
theorem code {f : UInt8 → Reader α} {c : UInt8} (hf : Reads (f c) bytes a) :
    Reads (Reader.code >>= f) (c :: bytes) a := fun rest => hf rest

end Reads

/-! ## Numbers as bytes -/

/-- A number has as many bytes as it is given. -/
theorem length_bigEndian (width n : Nat) : (bigEndian width n).length = width := by
  induction width generalizing n with
  | zero => rfl
  | succ width ih => simp [bigEndian, ih]

/-- A byte behind a number is its lowest digit. -/
theorem ofBigEndian_append (bytes : List UInt8) (b : UInt8) :
    ofBigEndian (bytes ++ [b]) = ofBigEndian bytes * 256 + b.toNat := by
  simp [ofBigEndian]

/-- The bytes of a number give it back as far as they go. -/
theorem ofBigEndian_bigEndian (width n : Nat) :
    ofBigEndian (bigEndian width n) = n % 256 ^ width := by
  induction width generalizing n with
  | zero => simp [bigEndian, ofBigEndian, Nat.mod_one]
  | succ width ih =>
    have hbyte : (UInt8.ofNat (n % 256)).toNat = n % 256 := by simp
    rw [bigEndian, ofBigEndian_append, ih, hbyte, Nat.pow_succ, Nat.mul_comm (256 ^ width) 256,
      Nat.mod_mul]
    omega

/-- As many bytes are taken as are asked for. -/
theorem reads_take (bytes : List UInt8) : Reads (Reader.take bytes.length) bytes bytes := by
  intro rest
  cases bytes with
  | nil => rfl
  | cons b bytes =>
    simp [Reader.take]
    rfl

/-- An unsigned number is read again from its bytes. -/
theorem reads_unsigned (width : Nat) {n : Nat} (h : n < 256 ^ width) :
    Reads (Reader.unsigned width) (bigEndian width n) n := by
  have hread := (reads_take (bigEndian width n)).map ofBigEndian
  rwa [length_bigEndian, ofBigEndian_bigEndian, Nat.mod_eq_of_lt h] at hread

/-- A number that fits the two's complement of a width is read back from it. -/
theorem reads_signed (width : Nat) {n : Int} (low : -(256 ^ width : Nat) ≤ n * 2)
    (high : n * 2 < (256 ^ width : Nat)) :
    Reads (Reader.signed width) (twosComplement width n) n := by
  have hpos : 0 < 256 ^ width := Nat.pow_pos (by decide)
  have hread := (reads_unsigned width (n := (n % (256 ^ width : Nat)).toNat)
    (by have := Int.emod_lt_of_pos n (Int.natCast_pos.2 hpos); omega)).map
    fun m => if m * 2 < 256 ^ width then (m : Int) else (m : Int) - (256 ^ width : Nat)
  have hback : (if (n % (256 ^ width : Nat)).toNat * 2 < 256 ^ width
      then ((n % (256 ^ width : Nat)).toNat : Int)
      else ((n % (256 ^ width : Nat)).toNat : Int) - (256 ^ width : Nat)) = n := by
    by_cases hn : n < 0
    · have hmod : n % (256 ^ width : Nat) = n + (256 ^ width : Nat) := by
        rw [← Int.add_emod_right, Int.emod_eq_of_lt (by omega) (by omega)]
      rw [hmod, if_neg (by omega)]
      omega
    · rw [Int.emod_eq_of_lt (by omega) (by omega), if_pos (by omega)]
      omega
  rw [hback] at hread
  exact hread

/-! ## Numbers in one of their forms -/

/-- An unsigned number behind its code. -/
theorem reads_number_unsigned {c : UInt8} (width : Nat) {n : Nat} (h : n < 256 ^ width)
    (hc : Reader.numberAfter c = Reader.unsigned width >>= fun m => pure (m : Int)) :
    Reads Reader.number (c :: bigEndian width n) (n : Int) := by
  refine .code ?_
  rw [hc]
  exact (reads_unsigned _ h).map fun m => (m : Int)

/-- A signed number behind its code. -/
theorem reads_number_signed {c : UInt8} (width : Nat) {n : Int} (low : -(256 ^ width : Nat) ≤ n * 2)
    (high : n * 2 < (256 ^ width : Nat)) (hc : Reader.numberAfter c = Reader.signed width) :
    Reads Reader.number (c :: twosComplement width n) n := by
  refine .code ?_
  rw [hc]
  exact reads_signed width low high

/-- A number from 0 to 127 is a code by itself. -/
theorem reads_number_code {n : Nat} (h : n < 128) :
    Reads Reader.number [UInt8.ofNat n] (n : Int) := by
  have hbyte : (UInt8.ofNat n).toNat = n := by simp; omega
  have hcode : UInt8.ofNat n < 0x80 := by rw [UInt8.lt_iff_toNat_lt, hbyte]; exact h
  refine .code ?_
  simp only [Reader.numberAfter, Reader.isSmallNumber, hcode, hbyte, decide_true, Bool.true_or,
    if_true]
  exact .pure _

/-- A number from -32 to -1 is a code by itself. -/
theorem reads_number_negative {n : Int} (low : -32 ≤ n) (high : n < 0) :
    Reads Reader.number (twosComplement 1 n) n := by
  obtain ⟨c, hc, hbyte⟩ : ∃ c : UInt8, twosComplement 1 n = [c] ∧ c.toNat = (n + 256).toNat :=
    ⟨UInt8.ofNat ((n % 256).toNat % 256), rfl, by simp; omega⟩
  have hcode : ¬ c < 0x80 := by rw [UInt8.lt_iff_toNat_lt, hbyte]; simp; omega
  have hlast : 0xE0 ≤ c := by rw [UInt8.le_iff_toNat_le, hbyte]; simp; omega
  have hback : (((n + 256).toNat : Nat) : Int) - 256 = n := by omega
  rw [hc]
  refine .code ?_
  simp only [Reader.numberAfter, Reader.isSmallNumber, hcode, hlast, hbyte, hback, decide_true,
    Bool.or_true, if_true, if_false]
  exact .pure _

/-- A number within 64 bits is read back from its shortest form. -/
theorem reads_number {n : Int} (low : -9223372036854775808 ≤ n) (high : n < 9223372036854775808) :
    Reads Reader.number (shortest n) n := by
  unfold shortest
  split
  next hn =>
    obtain ⟨m, rfl⟩ := Int.eq_ofNat_of_zero_le hn
    simp only [Int.toNat_natCast]
    split
    · exact reads_number_code ‹_›
    split
    · exact reads_number_unsigned _ (by omega) rfl
    split
    · exact reads_number_unsigned _ (by omega) rfl
    split
    · exact reads_number_unsigned _ (by omega) rfl
    · have hread := (reads_unsigned 8 (n := m) (by omega)).map
        fun m => Machine.wrap (m : Int)
      rw [Machine.wrap_of_bounds low high] at hread
      exact .code hread
  next hn =>
    split
    · exact reads_number_negative ‹_› (by omega)
    split
    · exact reads_number_signed _ (by omega) (by omega) rfl
    split
    · exact reads_number_signed _ (by omega) (by omega) rfl
    split
    · exact reads_number_signed _ (by omega) (by omega) rfl
    · exact reads_number_signed _ (by omega) (by omega) rfl

/-- A number of a fixed width is reduced to itself. -/
theorem reads_word_uint16 {n : Nat} (h : n < 65536) :
    Reads (Reader.word 2) (Value.uint16 n).encode n := by
  have hread := (reads_number_unsigned (c := 0xCD) 2 h rfl).map
    fun m => (m % Nat.pow 256 2).toNat
  have hback : ((n : Int) % Nat.pow 256 2).toNat = n := by simp; omega
  rwa [hback] at hread

/-- A word is read again from a number of 32 bits. -/
theorem reads_word_uint32 {n : Nat} (h : n < 4294967296) :
    Reads (Reader.word 4) (Value.uint32 n).encode n := by
  have hread := (reads_number_unsigned (c := 0xCE) 4 h rfl).map
    fun m => (m % Nat.pow 256 4).toNat
  have hback : ((n : Int) % Nat.pow 256 4).toNat = n := by simp; omega
  rwa [hback] at hread

/-! ## Lengths -/

/-- The length of a text is read again from its head. -/
theorem reads_stringHead {n : Nat} (h : n < maxLength) :
    Reads (Reader.code >>= Reader.contentLength) (stringHead n) (some n) := by
  unfold stringHead
  split
  · have hbyte : (UInt8.ofNat (0xA0 + n)).toNat = 0xA0 + n := by simp; omega
    refine .code ?_
    simp only [Reader.contentLength, hbyte]
    rw [if_pos (by omega), Nat.add_sub_cancel_left]
    exact .pure _
  split
  · exact .code ((reads_unsigned _ (by omega)).map some)
  split
  · exact .code ((reads_unsigned _ (by omega)).map some)
  · exact .code ((reads_unsigned _ h).map some)

/-- The length of some bytes is read again from their head. -/
theorem reads_bytesHead {n : Nat} (h : n < maxLength) :
    Reads (Reader.code >>= Reader.contentLength) (bytesHead n) (some n) := by
  unfold bytesHead
  split
  · exact .code ((reads_unsigned _ (by omega)).map some)
  split
  · exact .code ((reads_unsigned _ (by omega)).map some)
  · exact .code ((reads_unsigned _ h).map some)

/-- The length of a list is read again from its head. -/
theorem reads_arrayHead {n : Nat} (h : n < maxLength) :
    Reads (Reader.code >>= Reader.arrayLength) (arrayHead n) (some n) := by
  unfold arrayHead
  split
  · have hbyte : (UInt8.ofNat (0x90 + n)).toNat = 0x90 + n := by simp; omega
    refine .code ?_
    simp only [Reader.arrayLength, hbyte]
    rw [if_pos (by omega), Nat.add_sub_cancel_left]
    exact .pure _
  split
  · exact .code ((reads_unsigned _ (by omega)).map some)
  · exact .code ((reads_unsigned _ h).map some)

/-- The head of a map is not that of a missing value. -/
theorem mapHead_eq {n : Nat} (h : n < maxLength) :
    ∃ c more, mapHead n = c :: more ∧ c ≠ 0xC0 ∧ Reads (Reader.mapLength? c) more (some n) := by
  unfold mapHead
  split
  · have hbyte : (UInt8.ofNat (0x80 + n)).toNat = 0x80 + n := by simp; omega
    refine ⟨_, _, rfl, fun hc => by simp [hc] at hbyte; omega, ?_⟩
    simp only [Reader.mapLength?, hbyte]
    rw [if_pos (by omega), Nat.add_sub_cancel_left]
    exact .pure _
  split
  · exact ⟨_, _, rfl, by decide, (reads_unsigned _ (by omega)).map some⟩
  · exact ⟨_, _, rfl, by decide, (reads_unsigned _ h).map some⟩

/-! ## Texts, lists and records -/

/-- A head tells how many bytes follow it. -/
theorem reads_content {head content : List UInt8}
    (h : Reads (Reader.code >>= Reader.contentLength) head (some content.length)) :
    Reads Reader.bytes (head ++ content) content := by
  rw [Reader.bytes, ← bind_assoc]
  exact h.bind (reads_take content)

/-- Encoded bytes are read again. -/
theorem reads_bytes {content : List UInt8} (h : content.length < maxLength) :
    Reads Reader.bytes (Value.bytes content).encode content :=
  reads_content (reads_bytesHead h)

/-- A text is read back from its bytes. -/
theorem reads_string {s : String} (h : s.utf8ByteSize < maxLength) :
    Reads Reader.string (stringBytes s) s := by
  rw [← Text.length_toBytes] at h
  have hread := (reads_content (reads_stringHead h)).map Text.ofBytes
  rwa [Text.ofBytes_toBytes] at hread

section Lists

variable {α : Type} {fresh : α} {item : α → Reader α}

/-- Items are read one after another, each over a fresh value. -/
theorem reads_items {items : List α} {values : List Value}
    (h : List.Forall₂ (fun v a => Reads (item fresh) v.encode a) values items) (done : List α) :
    Reads (Reader.itemsOver fresh item values.length [] done) (encodeItems values)
      (done.reverse ++ items) := by
  induction h generalizing done with
  | nil => exact (List.append_nil done.reverse).symm ▸ .pure _
  | cons hitem _ ih =>
    have hread := hitem.bind (f := fun a => Reader.itemsOver fresh item _ [] (a :: done)) (ih _)
    rw [List.reverse_cons, List.append_assoc] at hread
    exact hread

/-- An encoded list is read again if its items are. -/
theorem reads_list {items : List α} {values : List Value} (hlength : values.length < maxLength)
    (h : List.Forall₂ (fun v a => Reads (item fresh) v.encode a) values items) :
    Reads (Reader.list fresh item []) (Value.array values).encode items := by
  rw [Reader.list, ← bind_assoc]
  exact (reads_arrayHead hlength).bind (reads_items h [])

end Lists

section Records

variable {ρ : Type} {zero : ρ} {fields : List (String × (ρ → Reader ρ))}

/-- Reading some written fields one after another takes a record from one state to another. -/
inductive Fills (fields : List (String × (ρ → Reader ρ))) : ρ → List (String × Value) → ρ → Prop
  | nil (r : ρ) : Fills fields r [] r
  | cons {name : String} {field : ρ → Reader ρ} {v : Value} {written : List (String × Value)}
      {r r' r'' : ρ} (hname : name.utf8ByteSize < maxLength)
      (hfield : fields.lookup name = some field) (hread : Reads (field r) v.encode r')
      (hrest : Fills fields r' written r'') : Fills fields r ((name, v) :: written) r''

/-- Fields fill a record one after the other. -/
theorem Fills.append {r r' r'' : ρ} {written more : List (String × Value)}
    (h : Fills fields r written r') (h' : Fills fields r' more r'') :
    Fills fields r (written ++ more) r'' := by
  induction h with
  | nil => exact h'
  | cons hname hfield hread _ ih => exact .cons hname hfield hread (ih h')

/-- A record is filled by reading its encoded fields by their names. -/
theorem Fills.reads {r r' : ρ} {written : List (String × Value)} (h : Fills fields r written r') :
    Reads (Reader.fieldsByName fields written.length r) (encodeFields written) r' := by
  induction h with
  | nil r => exact .pure r
  | cons hname hfield hread _ ih =>
    refine (reads_string hname).bind ?_
    rw [hfield]
    exact hread.bind ih

/-- A record is read back from the map of its fields. -/
theorem reads_record {r r' : ρ} {written : List (String × Value)}
    (hlength : written.length < maxLength) (h : Fills fields r written r') :
    Reads (Reader.record zero fields r) (Value.map written).encode r' := by
  obtain ⟨c, more, hhead, hc, hcount⟩ := mapHead_eq hlength
  rw [Value.encode, hhead, List.cons_append]
  refine .code ?_
  rw [if_neg hc]
  exact hcount.bind h.reads

end Records

/-! ## Bytes from elsewhere -/

/-- From at most `n` bytes, a reader leaves at most as many, and what it gives has a property. -/
def Gives {α : Type} (n : Nat) (P : α → Prop) (x : Reader α) : Prop :=
  ∀ bytes a rest, bytes.length ≤ n → x.run bytes = .ok (a, rest) → rest.length ≤ n ∧ P a

namespace Gives

variable {α β : Type} {n : Nat} {P : α → Prop} {Q : β → Prop} {x y : Reader α} {f : α → Reader β}

/-- A value with the property may be given. -/
theorem pure {a : α} (h : P a) : Gives n P (Pure.pure a) := by
  rintro bytes b rest hlength ⟨⟩
  exact ⟨hlength, h⟩

/-- A failure gives nothing. -/
theorem throw (e : Cause) : Gives n P (MonadExcept.throw e) := nofun

/-- What is left to read is no longer than it was. -/
theorem get : Gives n (·.length ≤ n) MonadState.get := by
  rintro bytes b rest hlength ⟨⟩
  exact ⟨hlength, hlength⟩

/-- Less may be left to read. -/
theorem set {bytes : List UInt8} (h : bytes.length ≤ n) :
    Gives n (fun _ => True) (MonadStateOf.set bytes : Reader PUnit) := by
  rintro - u rest - ⟨⟩
  exact ⟨h, True.intro⟩

/-- What is read may be read behind something that was read. -/
theorem bind (hx : Gives n P x) (hf : ∀ a, P a → Gives n Q (f a)) : Gives n Q (x >>= f) := by
  intro bytes b rest hlength h
  rw [StateT.run_bind] at h
  obtain ⟨⟨a, more⟩, hfirst, hsecond⟩ := except_bind_ok.1 h
  obtain ⟨hmore, ha⟩ := hx bytes a more hlength hfirst
  exact hf a ha more b rest hmore hsecond

/-- What is made of what was read has what follows from it. -/
theorem map (hx : Gives n P x) {g : α → β} (hg : ∀ a, P a → Q (g a)) :
    Gives n Q (x >>= fun a => Pure.pure (g a)) :=
  hx.bind fun a ha => pure (hg a ha)

/-- What is known of the value may be weakened. -/
theorem mono {R : α → Prop} (hx : Gives n P x) (h : ∀ a, P a → R a) : Gives n R x :=
  fun bytes a rest hlength hrun =>
    ⟨(hx bytes a rest hlength hrun).1, h a (hx bytes a rest hlength hrun).2⟩

/-- Either of two readers may be taken. -/
theorem ite {c : Prop} [Decidable c] (hx : Gives n P x) (hy : Gives n P y) :
    Gives n P (if c then x else y) := by
  split
  · exact hx
  · exact hy

/-- Nothing needs to be known of what is made of what was read. -/
theorem anything (hx : Gives n P x) {g : α → β} :
    Gives n (fun _ => True) (x >>= fun a => Pure.pure (g a)) :=
  hx.map fun _ _ => True.intro

end Gives

section Elsewhere

open Gives

variable {n : Nat}

/-- A code is read. -/
theorem gives_code : Gives n (fun _ => True) Reader.code := by
  intro bytes c rest hlength h
  cases bytes with
  | nil => cases h
  | cons b bytes =>
    cases h
    exact ⟨Nat.le_of_succ_le hlength, True.intro⟩

/-- As many bytes as are asked for. -/
theorem gives_take (k : Nat) :
    Gives n (fun front => front.length = k ∧ front.length ≤ n) (Reader.take k) := by
  refine get.bind fun bytes hbytes => ?_
  split
  next hk => exact pure ⟨hk ▸ rfl, Nat.zero_le n⟩
  refine ite (Gives.throw _) ?_
  dsimp only
  split
  · exact Gives.throw _
  next hfront =>
    have hlength := List.length_take_le' k bytes
    have hdrop : (bytes.drop k).length ≤ n := by
      rw [List.length_drop]
      omega
    refine (set hdrop).bind fun _ _ => pure ⟨?_, Nat.le_trans hlength hbytes⟩
    have := List.length_take_le k bytes
    omega

/-- A number of some bytes is below the power of 256. -/
theorem ofBigEndian_lt (bytes : List UInt8) : ofBigEndian bytes < 256 ^ bytes.length := by
  have hfold (m : Nat) :
      bytes.foldl (fun m b => m * 256 + b.toNat) m < (m + 1) * 256 ^ bytes.length := by
    induction bytes generalizing m with
    | nil => simp
    | cons b bytes ih =>
      have hb := b.toNat_lt
      have hpos : 0 < 256 ^ bytes.length := Nat.pow_pos (by decide)
      rw [List.foldl_cons, List.length_cons, Nat.pow_succ, Nat.mul_comm (256 ^ _) 256,
        ← Nat.mul_assoc]
      exact Nat.lt_of_lt_of_le (ih _) (Nat.mul_le_mul_right _ (by omega))
  have hzero := hfold 0
  rwa [Nat.zero_add, Nat.one_mul] at hzero

/-- An unsigned number of some bytes is below the power of 256. -/
theorem gives_unsigned (width : Nat) : Gives n (· < 256 ^ width) (Reader.unsigned width) :=
  (gives_take width).map fun bytes h => h.1 ▸ ofBigEndian_lt bytes

/-- A signed number is read. -/
theorem gives_signed (width : Nat) : Gives n (fun _ => True) (Reader.signed width) :=
  (gives_unsigned width).anything

/-- A number is read. -/
theorem gives_number : Gives n (fun _ => True) Reader.number := by
  refine gives_code.bind fun c _ => ?_
  unfold Reader.numberAfter
  refine ite (pure True.intro) ?_
  split
  · exact pure True.intro
  · exact (gives_unsigned 1).anything
  · exact (gives_unsigned 2).anything
  · exact (gives_unsigned 4).anything
  · exact (gives_unsigned 8).anything
  · exact gives_signed 1
  · exact gives_signed 2
  · exact gives_signed 4
  · exact gives_signed 8
  · exact Gives.throw _

/-- A length is read. -/
theorem gives_contentLength (c : UInt8) : Gives n (fun _ => True) (Reader.contentLength c) := by
  unfold Reader.contentLength
  refine ite (pure True.intro) ?_
  split
  · exact pure True.intro
  · exact (gives_unsigned 1).anything
  · exact (gives_unsigned 1).anything
  · exact (gives_unsigned 2).anything
  · exact (gives_unsigned 2).anything
  · exact (gives_unsigned 4).anything
  · exact (gives_unsigned 4).anything
  · exact Gives.throw _

/-- Bytes that are read are no more than there are. -/
theorem gives_bytes : Gives n (·.length ≤ n) Reader.bytes := by
  refine gives_code.bind fun c _ => (gives_contentLength c).bind fun count? _ => ?_
  cases count? with
  | none => exact pure (Nat.zero_le n)
  | some k => exact (gives_take k).mono fun _ h => h.2

/-- A text takes at most three bytes for each byte there is. -/
theorem gives_string : Gives n (·.utf8ByteSize ≤ 3 * n) Reader.string :=
  gives_bytes.map fun bytes h =>
    Nat.le_trans (Text.utf8ByteSize_ofBytes_le bytes) (Nat.mul_le_mul_left 3 h)

/-- The length of a list, if there is one, is one that the format has a form for. -/
theorem gives_arrayLength (c : UInt8) :
    Gives n (fun count? => ∀ k ∈ count?, k < maxLength) (Reader.arrayLength c) := by
  have hsome {k l : Nat} (hk : k ∈ some l) (hl : l < maxLength) : k < maxLength :=
    Option.some.inj hk ▸ hl
  unfold Reader.arrayLength
  refine ite (pure fun k hk => hsome hk ?_) ?_
  · have := c.toNat_lt
    exact Nat.lt_of_le_of_lt (Nat.sub_le _ _) (Nat.lt_trans this (by decide))
  split
  · exact pure nofun
  · exact (gives_unsigned 2).map fun m hm k hk => hsome hk (Nat.lt_trans hm (by decide))
  · exact (gives_unsigned 4).map fun m hm k hk => hsome hk hm
  · exact Gives.throw _

/-- A length of a map is read, if it is one. -/
theorem gives_mapLength? (c : UInt8) : Gives n (fun _ => True) (Reader.mapLength? c) := by
  unfold Reader.mapLength?
  refine ite (pure True.intro) ?_
  split
  · exact (gives_unsigned 2).anything
  · exact (gives_unsigned 4).anything
  · exact pure True.intro

section Lists

variable {α : Type} {fresh : α} {item : α → Reader α} {P : α → Prop}

/-- As many items are read as are asked for, each with the property of the items. -/
theorem gives_itemsOver (hfresh : P fresh) (hitem : ∀ a, P a → Gives n P (item a)) (k : Nat)
    {old done : List α} (hold : ∀ a ∈ old, P a) (hdone : ∀ a ∈ done, P a) :
    Gives n (fun items => items.length = done.length + k ∧ ∀ a ∈ items, P a)
      (Reader.itemsOver fresh item k old done) := by
  induction k generalizing old done with
  | zero => exact pure ⟨List.length_reverse, fun a ha => hdone a (List.mem_reverse.1 ha)⟩
  | succ k ih =>
    have hhead : P (old.headD fresh) := by
      cases old with
      | nil => exact hfresh
      | cons a old => exact hold a List.mem_cons_self
    refine (hitem _ hhead).bind fun a ha => ?_
    refine (ih (fun b hb => hold b (List.mem_of_mem_tail hb))
      (List.forall_mem_cons.2 ⟨ha, hdone⟩)).mono fun items h => ⟨?_, h.2⟩
    rw [h.1, List.length_cons]
    omega

/-- A list is read with the property of its items, and is shorter than the format allows. -/
theorem gives_list (hfresh : P fresh) (hitem : ∀ a, P a → Gives n P (item a)) {old : List α}
    (hold : ∀ a ∈ old, P a) :
    Gives n (fun items => items.length < maxLength ∧ ∀ a ∈ items, P a)
      (Reader.list fresh item old) := by
  refine gives_code.bind fun c _ => (gives_arrayLength c).bind fun count? hcount => ?_
  cases count? with
  | none => exact pure ⟨Nat.succ_pos _, by simp⟩
  | some k =>
    refine (gives_itemsOver hfresh hitem k hold (by simp)).mono fun items h => ⟨?_, h.2⟩
    rw [h.1, List.length_nil, Nat.zero_add]
    exact hcount k rfl

end Lists

mutual

/-- What is passed over is gone. -/
theorem gives_skip : ∀ depth, Gives n (fun _ => True) (Reader.skip depth)
  | 0 => by
    unfold Reader.skip
    exact Gives.throw _
  | depth + 1 => by
    unfold Reader.skip
    refine gives_code.bind fun c _ => (gives_mapLength? c).bind fun count? _ => ?_
    split
    · exact (gives_take _).anything
    · exact (gives_unsigned _).bind fun k _ => (gives_take _).anything
    · exact gives_skipMany depth _
    · refine ite ((gives_arrayLength c).bind fun k _ => gives_skipMany depth _) ?_
      exact (gives_contentLength c).bind fun k _ => (gives_take _).anything

/-- Values are passed over. -/
theorem gives_skipMany (depth : Nat) : ∀ k, Gives n (fun _ => True) (Reader.skipMany depth k)
  | 0 => by
    unfold Reader.skipMany
    exact pure True.intro
  | k + 1 => by
    unfold Reader.skipMany
    exact (gives_skip depth).bind fun _ _ => gives_skipMany depth k

end

section Records

variable {ρ : Type} {zero : ρ} {fields : List (String × (ρ → Reader ρ))} {P : ρ → Prop}

/-- A record read in the order of its fields keeps what its fields keep. -/
theorem gives_fieldsInOrder (hfields : ∀ f ∈ fields, ∀ r, P r → Gives n P (f.2 r)) {r : ρ}
    (h : P r) : Gives n P (Reader.fieldsInOrder r fields) := by
  induction fields generalizing r with
  | nil => exact pure h
  | cons f fields ih =>
    rw [List.forall_mem_cons] at hfields
    exact (hfields.1 r h).bind fun r' h' => ih hfields.2 h'

/-- A record read by the names of its fields keeps what its fields keep. -/
theorem gives_fieldsByName (hfields : ∀ f ∈ fields, ∀ r, P r → Gives n P (f.2 r)) (k : Nat) {r : ρ}
    (h : P r) : Gives n P (Reader.fieldsByName fields k r) := by
  induction k generalizing r with
  | zero => exact pure h
  | succ k ih =>
    refine gives_string.bind fun name _ => ?_
    cases hlookup : fields.lookup name with
    | none => exact get.bind fun bytes _ => (gives_skip _).bind fun _ _ => ih h
    | some field =>
      obtain ⟨before, after, rfl, -⟩ := List.lookup_eq_some_iff.1 hlookup
      exact (hfields (name, field) (by simp) r h).bind fun r' h' => ih h'

/-- A record keeps what each of its fields keeps. -/
theorem gives_record (hzero : P zero) (hfields : ∀ f ∈ fields, ∀ r, P r → Gives n P (f.2 r))
    {r : ρ} (h : P r) : Gives n P (Reader.record zero fields r) := by
  refine gives_code.bind fun c _ => ite (pure hzero) ?_
  refine (gives_mapLength? c).bind fun count? _ => ?_
  cases count? with
  | some k => exact gives_fieldsByName hfields k h
  | none =>
    refine (gives_arrayLength c).bind fun count? _ => ?_
    split
    · exact pure hzero
    · exact pure hzero
    · exact ite (gives_fieldsInOrder hfields h) (throw _)

end Records

end Elsewhere

end Qll.MessagePack
