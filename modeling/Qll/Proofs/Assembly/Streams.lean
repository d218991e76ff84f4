import Mathlib.Data.List.Forall2
import Mathlib.Tactic.Common
import Qll.Assembly.Stream
import Qll.Proofs.Computation
import Qll.Proofs.MessagePack.Reading

/-!
# Reading back a stream

A directive is written as a record that leaves out every field with its zero value, so the reader,
which starts from a record of zeros, ends with the same record: its kind tells which of the fields
matter. What is read need not come from a writer. The count in the header is any number, and room
for as many directives is made before the first one is read, which fails for a number that counts
nothing. The operands of an instruction are looked at, the register of a constant is not.
-/

namespace Qll.Assembly

open Qll.Computation (Errs except_bind_ok)
open Machine (Register Opcode)
open MessagePack (maxLength Reads Fills reads_string reads_bytes reads_list reads_number
  reads_record reads_word_uint16 reads_word_uint32 Gives gives_record gives_number gives_string
  gives_bytes gives_list)

/-! ## Directives that can be written -/

/-- The registers of an instruction exist, and the operands that its operation does not take are
`r0`. -/
structure Instruction.WellFormed (i : Instruction) : Prop where
  registers : ∀ r ∈ i.registers, r.index.toNat < Register.count
  unused : ∀ r ∈ [i.d, i.s0, i.s1].drop i.op.operands, r = ⟨0⟩

/-- A value that a constant can hold; a text is none, not even a short one. -/
def Value.IsWord : Value → Prop
  | .immediate _ | .reference _ => True
  | .text _ => False

/-- An instruction is well formed, and a constant holds a word in a register that exists. -/
def Directive.WellFormed : Directive → Prop
  | .instruction i => i.WellFormed
  | .constant d value => d.index.toNat < Register.count ∧ value.IsWord
  | .label _ | .data _ => True

/-- What reading a directive looks at: an instruction is well formed, and a constant holds a word.
The register of a constant is any number. -/
def Directive.AsRead : Directive → Prop
  | .instruction i => i.WellFormed
  | .constant _ value => value.IsWord
  | .label _ | .data _ => True

/-- A well-formed directive is one that can be read. -/
theorem Directive.WellFormed.asRead {d : Directive} (h : d.WellFormed) : d.AsRead := by
  cases d with
  | constant d value => exact h.2
  | _ => exact h

/-- The format has a form for the length of a value's text. -/
def Value.Fits : Value → Prop
  | .immediate _ => True
  | .text s | .reference s => s.utf8ByteSize < maxLength

/-- The format has a form for the lengths of a directive's texts and lists. -/
def Directive.Fits : Directive → Prop
  | .label name => name.utf8ByteSize < maxLength
  | .data values => values.length < maxLength ∧ ∀ v ∈ values, v.Fits
  | .instruction _ => True
  | .constant _ value => value.Fits

instance (i : Instruction) : Decidable i.WellFormed :=
  decidable_of_iff ((∀ r ∈ i.registers, r.index.toNat < Register.count) ∧
    ∀ r ∈ [i.d, i.s0, i.s1].drop i.op.operands, r = ⟨0⟩)
    ⟨fun h => ⟨h.1, h.2⟩, fun h => ⟨h.registers, h.unused⟩⟩

instance : DecidablePred Value.IsWord
  | .immediate _ | .reference _ => isTrue trivial
  | .text _ => isFalse id

instance : DecidablePred Directive.WellFormed
  | .instruction i => inferInstanceAs (Decidable i.WellFormed)
  | .constant d value => inferInstanceAs (Decidable (d.index.toNat < Register.count ∧ value.IsWord))
  | .label _ | .data _ => isTrue trivial

instance : DecidablePred Directive.AsRead
  | .instruction i => inferInstanceAs (Decidable i.WellFormed)
  | .constant _ value => inferInstanceAs (Decidable value.IsWord)
  | .label _ | .data _ => isTrue trivial

instance : DecidablePred Value.Fits
  | .immediate _ => isTrue trivial
  | .text s | .reference s => inferInstanceAs (Decidable (s.utf8ByteSize < maxLength))

instance : DecidablePred Directive.Fits
  | .label name => inferInstanceAs (Decidable (name.utf8ByteSize < maxLength))
  | .data values => inferInstanceAs (Decidable (values.length < maxLength ∧ ∀ v ∈ values, v.Fits))
  | .instruction _ => isTrue trivial
  | .constant _ value => inferInstanceAs (Decidable value.Fits)

namespace Stream

/-- A value as it is read back. -/
def packed : Value → PackedValue
  | .immediate w => { kind := "imm", word := w.toNat }
  | .text s => { kind := "text", text := s }
  | .reference s => { kind := "ref", text := s }

/-- The record of a directive as it is read back. -/
def record : Directive → Record
  | .label name => { kind := "label", name }
  | .data values => { kind := "data", values := values.map packed }
  | .instruction i =>
    { kind := "instruction", op := i.op.name, registers := i.registers.map (·.index) }
  | .constant d value => { kind := "constant", registers := [d.index], values := [packed value] }

/-! ## Records -/

/-- A field that is left out has its zero value already. -/
theorem fills_given {ρ : Type} {fields : List (String × (ρ → MessagePack.Reader ρ))}
    {field : ρ → MessagePack.Reader ρ} {r r' : ρ} {isZero : Bool} {name : String}
    {v : MessagePack.Value} (hname : name.utf8ByteSize < maxLength)
    (hfield : fields.lookup name = some field) (hzero : isZero → r' = r)
    (hread : Reads (field r) v.encode r') : Fills fields r (given isZero name v) r' := by
  unfold given
  split
  next h => rw [hzero h]; exact .nil r
  · exact .cons hname hfield hread (.nil r')

/-- A field is given once at most. -/
theorem length_given_le (isZero : Bool) (name : String) (v : MessagePack.Value) :
    (given isZero name v).length ≤ 1 := by
  cases isZero <;> simp [given]

/-- A record of a kind with at most two more fields. -/
theorem reads_kind {ρ : Type} {zero r r' r'' : ρ}
    {fields : List (String × (ρ → MessagePack.Reader ρ))} {field : ρ → MessagePack.Reader ρ}
    {kind : String} {written : List (String × MessagePack.Value)}
    (hlength : written.length ≤ 2) (hfield : fields.lookup "k" = some field)
    (hread : Reads (field r) (MessagePack.Value.string kind).encode r')
    (h : Fills fields r' written r'') :
    Reads (MessagePack.Reader.record zero fields r)
      (MessagePack.Value.map (("k", .string kind) :: written)).encode r'' :=
  reads_record (by simp [maxLength]; omega) (.cons (by decide) hfield hread h)

/-- A value is read back from its fields. -/
theorem reads_packValue {v : Value} (h : v.Fits) :
    Reads (readValue {}) (packValue v).encode (packed v) := by
  cases v with
  | immediate w =>
    refine reads_kind (Nat.le_trans (length_given_le ..) (by decide)) rfl
      ((reads_string (by decide)).map _)
      (fills_given (by decide) rfl (fun hzero => ?_) ((reads_word_uint32 w.toNat_lt).map _))
    rw [packed, beq_iff_eq.1 hzero]
    rfl
  | text s =>
    refine reads_kind (Nat.le_trans (length_given_le ..) (by decide)) rfl
      ((reads_string (by decide)).map _)
      (fills_given (by decide) rfl (fun hzero => ?_) ((reads_string h).map _))
    rw [packed, beq_iff_eq.1 hzero]
  | reference s =>
    refine reads_kind (Nat.le_trans (length_given_le ..) (by decide)) rfl
      ((reads_string (by decide)).map _)
      (fills_given (by decide) rfl (fun hzero => ?_) ((reads_string h).map _))
    rw [packed, beq_iff_eq.1 hzero]

/-- Packed values are read one by one. -/
theorem reads_packValues {values : List Value} (h : ∀ v ∈ values, v.Fits) :
    List.Forall₂ (fun v a => Reads (readValue {}) v.encode a) (values.map packValue)
      (values.map packed) := by
  rw [List.forall₂_map_left_iff, List.forall₂_map_right_iff, List.forall₂_same]
  exact fun v hv => reads_packValue (h v hv)

/-- No operation has more than three operands. -/
theorem operands_le (op : Opcode) : op.operands ≤ 3 := by
  cases op <;> decide

/-- An instruction has as many registers as its operation has operands. -/
theorem length_registers (i : Instruction) : i.registers.length = i.op.operands := by
  have := operands_le i.op
  simp [Instruction.registers]
  omega

/-- The name of an operation is short enough to be written. -/
theorem name_fits (op : Opcode) : op.name.utf8ByteSize < maxLength := by
  cases op <;> decide

/-- A directive is read back from its record. -/
theorem reads_packDirective {d : Directive} (h : d.Fits) :
    Reads readRecord (packDirective d).encode (record d) := by
  cases d with
  | label name =>
    refine reads_kind (Nat.le_trans (length_given_le ..) (by decide)) rfl
      ((reads_string (by decide)).map _)
      (fills_given (by decide) rfl (fun hzero => ?_) ((reads_string h).map _))
    rw [record, beq_iff_eq.1 hzero]
  | data values =>
    refine reads_kind (Nat.le_trans (length_given_le ..) (by decide)) rfl
      ((reads_string (by decide)).map _)
      (fills_given (by decide) rfl (fun hzero => ?_)
        ((reads_list (by simpa using h.1) (reads_packValues h.2)).map _))
    rw [record, List.isEmpty_iff.1 hzero]
    rfl
  | instruction i =>
    refine reads_kind (by simp [packRegisters]; exact length_given_le ..) rfl
      ((reads_string (by decide)).map _)
      (.cons (by decide) rfl ((reads_string (name_fits i.op)).map _)
        (fills_given (by decide) rfl (fun hzero => ?_) ((reads_bytes ?_).map _)))
    · rw [record, List.isEmpty_iff.1 hzero]
      rfl
    · rw [List.length_map, length_registers]
      exact Nat.lt_of_le_of_lt (operands_le i.op) (by decide)
  | constant d value =>
    have hone : 1 < maxLength := by decide
    have hvalue : ∀ v ∈ [value], v.Fits := fun v hv => List.mem_singleton.1 hv ▸ h
    have hlist : Reads (MessagePack.Reader.list {} readValue []) _ [packed value] :=
      reads_list (show [packValue value].length < maxLength from hone) (reads_packValues hvalue)
    refine reads_kind (by simp [packRegisters]; exact length_given_le ..) rfl
      ((reads_string (by decide)).map _)
      (.append (fills_given (by decide) rfl (fun hzero => ?_) ((reads_bytes ?_).map _))
        (.cons (by decide) rfl (hlist.map _) (.nil _)))
    · cases hzero
    · exact hone

/-! ## Directives -/

/-- A packed value is unpacked again. -/
theorem unpackValue_packed (i : Nat) (v : Value) : unpackValue i (packed v) = .ok v := by
  cases v with
  | immediate w =>
    simp [unpackValue, packed]
  | text s => rfl
  | reference s => rfl

/-- Packed values are unpacked again. -/
theorem mapM_unpackValue (i : Nat) (values : List Value) :
    (values.map packed).mapM (unpackValue i) = .ok values := by
  induction values with
  | nil => rfl
  | cons v values ih =>
    rw [List.map_cons, List.mapM_cons, unpackValue_packed, ih]
    rfl

/-- The name of an operation is parsed as that operation. -/
theorem parse?_name (op : Opcode) : Opcode.parse? op.name = some op := by
  cases op <;> rfl

/-- The operands that are not taken are `r0` again. -/
theorem ofList_registers {i : Instruction} (h : i.WellFormed) :
    Instruction.ofList i.op i.registers = i := by
  have hunused := h.unused
  obtain ⟨op, d, s0, s1⟩ := i
  obtain hop | hop | hop | hop : op.operands = 0 ∨ op.operands = 1 ∨ op.operands = 2 ∨
      op.operands = 3 := by have := operands_le op; omega
  all_goals simp_all [Instruction.ofList, Instruction.registers]

/-- The record of a well-formed instruction is unpacked again. -/
theorem unpackInstruction_record (position : Nat) {i : Instruction} (h : i.WellFormed) :
    unpackInstruction position (record (.instruction i)) = .ok (.instruction i) := by
  have hfind : (i.registers.map (·.index)).find? (fun n => Register.count ≤ n.toNat) = none := by
    rw [List.find?_eq_none]
    intro n hn
    obtain ⟨r, hr, rfl⟩ := List.mem_map.1 hn
    simpa using h.registers r hr
  have hback : (i.registers.map (·.index)).map Register.mk = i.registers := by
    rw [List.map_map]
    exact List.map_id _
  simp only [unpackInstruction, record, parse?_name, List.length_map, length_registers, hfind,
    hback, ofList_registers h, ne_eq, not_true_eq_false, if_false]

/-- A directive is made again from its record. -/
theorem unpackDirective_record (position : Nat) {d : Directive} (h : d.AsRead) :
    unpackDirective position (record d) = .ok d := by
  cases d with
  | label name => rfl
  | data values =>
    simp only [unpackDirective, record, mapM_unpackValue]
    rfl
  | instruction i => exact unpackInstruction_record position h
  | constant d value =>
    cases value with
    | immediate w =>
      simp only [unpackDirective, unpackConstant, record, unpackValue_packed]
      rfl
    | text s => exact h.elim
    | reference s => rfl

/-! ## Streams -/

/-- Directives are read one after another, each from its record. -/
theorem readDirectives_records (count : Int) {ds : List Directive} (formed : ∀ d ∈ ds, d.AsRead)
    (fits : ∀ d ∈ ds, d.Fits) (done : List Directive) :
    readDirectives count ds.length done (ds.flatMap fun d => (packDirective d).encode) =
      .ok (done.reverse ++ ds) := by
  induction ds generalizing done with
  | nil => simp [readDirectives]
  | cons d ds ih =>
    rw [List.forall_mem_cons] at formed fits
    rw [List.length_cons, readDirectives, List.flatMap_cons, reads_packDirective fits.1]
    simp only [unpackDirective_record _ formed.1, ih formed.2 fits.2]
    simp

/-- Encoded directives are read again, behind those that were read before. -/
theorem readDirectives_encode (count : Int) {ds : List Directive} (formed : ∀ d ∈ ds, d.WellFormed)
    (fits : ∀ d ∈ ds, d.Fits) (done : List Directive) :
    readDirectives count ds.length done (ds.flatMap fun d => (packDirective d).encode) =
      .ok (done.reverse ++ ds) :=
  readDirectives_records count (fun d hd => (formed d hd).asRead) fits done

/-- The header of a stream is read again. -/
theorem reads_packHeader {n : Nat} (h : (n : Int) ≤ maxCount) :
    Reads readHeader (packHeader n).encode { schema, count := n } :=
  reads_record (by simp [maxLength]) (.cons (by decide) rfl ((reads_word_uint16 (by decide)).map _)
    (.cons (by decide) rfl
      ((reads_number (by omega) (Int.lt_of_le_of_lt h (by decide))).map _) (.nil _)))

/-- A stream is read back from its header and its records. -/
theorem decode_records {ds : List Directive} (formed : ∀ d ∈ ds, d.AsRead)
    (fits : ∀ d ∈ ds, d.Fits) (room : (ds.length : Int) ≤ maxCount) :
    decode (encode ds) = .ok ds := by
  have hroom : ¬ ((ds.length : Int) < 0 ∨ maxCount < ds.length) := by omega
  rw [decode, encode, reads_packHeader room]
  simp only [ne_eq, not_true_eq_false, if_false, hroom, Int.toNat_natCast]
  exact readDirectives_records _ formed fits []

/-- A stream that is written is read back. A list holds at most as many directives as there can be
room for. -/
theorem decode_encode {ds : List Directive} (formed : ∀ d ∈ ds, d.WellFormed)
    (fits : ∀ d ∈ ds, d.Fits) (room : (ds.length : Int) ≤ maxCount) :
    decode (encode ds) = .ok ds := by
  have hroom : ¬ ((ds.length : Int) < 0 ∨ maxCount < ds.length) := by omega
  rw [decode, encode, reads_packHeader room]
  simp only [ne_eq, not_true_eq_false, if_false, hroom, Int.toNat_natCast]
  exact readDirectives_encode _ formed fits []

/-- A stream of every kind of directive. -/
def mixed : List Directive :=
  [.label "", .label "main", .instruction { op := .store, d := .sp, s0 := ⟨1⟩ },
    .instruction { op := .halt }, .constant ⟨2⟩ (.immediate 0), .constant ⟨3⟩ (.reference "text"),
    .data [], .data [.immediate 5, .text "é", .reference ""]]

/-- A stream with a directive of each kind is decoded again. -/
theorem decode_encode_mixed : decode (encode mixed) = .ok mixed :=
  decode_encode (by decide) (by decide) (by decide)

/-! ## Bytes from elsewhere -/

/-- Unpacking a value does not fail for want of room. -/
theorem unpackValue_errs (position : Nat) (v : PackedValue) :
    Errs (· ≠ .room) (unpackValue position v) := by
  unfold unpackValue
  split
  · exact .ok _
  split
  · exact .ok _
  split
  · exact .ok _
  · exact .error nofun

/-- Unpacking an instruction does not fail for want of room. -/
theorem unpackInstruction_errs (position : Nat) (r : Record) :
    Errs (· ≠ .room) (unpackInstruction position r) := by
  unfold unpackInstruction
  split
  · exact .error nofun
  split
  · exact .error nofun
  split
  · exact .error nofun
  · exact .ok _

/-- Unpacking a constant does not fail for want of room. -/
theorem unpackConstant_errs (position : Nat) (r : Record) :
    Errs (· ≠ .room) (unpackConstant position r) := by
  unfold unpackConstant
  split
  · refine .bind (unpackValue_errs _ _) fun value => ?_
    split
    · exact .error nofun
    · exact .ok _
  · exact .error nofun

/-- A record that is no directive is an error of its own. -/
theorem unpackDirective_errs (position : Nat) (r : Record) :
    Errs (· ≠ .room) (unpackDirective position r) := by
  unfold unpackDirective
  split
  · exact .ok _
  split
  · exact .bind (.mapM _ fun v _ => unpackValue_errs _ v) fun values => .ok _
  split
  · exact unpackInstruction_errs _ _
  split
  · exact unpackConstant_errs _ _
  · exact .error nofun

/-- Room is made before the first directive is read. -/
theorem readDirectives_errs (count : Int) (left : Nat) (done : List Directive)
    (bytes : List UInt8) : Errs (· ≠ .room) (readDirectives count left done bytes) := by
  induction left generalizing done bytes with
  | zero => exact .ok _
  | succ left ih =>
    unfold readDirectives
    split
    · exact .error nofun
    · exact .error nofun
    · split
      next e herror => exact .error (unpackDirective_errs _ _ _ herror)
      · exact ih _ _

/-- Every step reads one directive. -/
theorem length_readDirectives {count : Int} {left : Nat} {done ds : List Directive}
    {bytes : List UInt8} (h : readDirectives count left done bytes = .ok ds) :
    ds.length = done.length + left := by
  induction left generalizing done bytes with
  | zero =>
    cases h
    exact List.length_reverse
  | succ left ih =>
    unfold readDirectives at h
    split at h
    · cases h
    · cases h
    · split at h
      · cases h
      · rw [ih h, List.length_cons]
        omega

/-- What reading a stream well has found. -/
theorem decode_cases {bytes : List UInt8} {ds : List Directive} (h : decode bytes = .ok ds) :
    ∃ header rest, readHeader.run bytes = .ok (header, rest) ∧ 0 ≤ header.count ∧
      header.count ≤ maxCount ∧
      readDirectives header.count header.count.toNat [] rest = .ok ds := by
  unfold decode at h
  split at h
  · cases h
  next header rest hheader =>
    split at h
    · cases h
    split at h
    · cases h
    next hroom => exact ⟨header, rest, hheader, by omega, by omega, h⟩

/-- Every directive that the header announces is read. -/
theorem length_of_decode {bytes : List UInt8} {ds : List Directive} (h : decode bytes = .ok ds) :
    ∃ header rest,
      readHeader.run bytes = .ok (header, rest) ∧ (ds.length : Int) = header.count := by
  obtain ⟨header, rest, hheader, hpos, -, hds⟩ := decode_cases h
  have hlength := length_readDirectives hds
  rw [List.length_nil] at hlength
  exact ⟨header, rest, hheader, by omega⟩

/-- The announced number alone decides whether room can be made. -/
theorem decode_room_iff (bytes : List UInt8) :
    decode bytes = .error .room ↔ ∃ header rest, readHeader.run bytes = .ok (header, rest) ∧
      header.schema = schema ∧ (header.count < 0 ∨ maxCount < header.count) := by
  constructor
  · intro h
    unfold decode at h
    split at h
    · cases h
    next header rest hheader =>
      split at h
      · cases h
      next hschema =>
        split at h
        next hcount => exact ⟨header, rest, hheader, Decidable.not_not.1 hschema, hcount⟩
        · exact absurd rfl (readDirectives_errs _ _ _ _ _ h)
  · rintro ⟨header, rest, hheader, hschema, hcount⟩
    rw [decode, hheader]
    simp only [hschema, ne_eq, not_true_eq_false, if_false, hcount, if_true]

/-- What is read has as many directives as the header announces, and every defect of the bytes is
an error of its own. Only where the announced number counts nothing, or more than there can be room
for, no room can be made. -/
theorem decode_announced (bytes : List UInt8) :
    (∀ ds, decode bytes = .ok ds → ∃ header rest,
      readHeader.run bytes = .ok (header, rest) ∧ (ds.length : Int) = header.count) ∧
    (decode bytes = .error .room ↔ ∃ header rest, readHeader.run bytes = .ok (header, rest) ∧
      header.schema = schema ∧ (header.count < 0 ∨ maxCount < header.count)) :=
  ⟨fun _ h => length_of_decode h, decode_room_iff bytes⟩

/-- A header with the right version that announces -1 directives. -/
def negativeCount : List UInt8 :=
  [0x82, 0xA6, 0x73, 0x63, 0x68, 0x65, 0x6D, 0x61, 0x01, 0xA5, 0x63, 0x6F, 0x75, 0x6E, 0x74, 0xFF]

/-- A stream that announces a negative number of directives is refused for want of room. -/
theorem decode_negativeCount : decode negativeCount = .error .room := rfl

/-! ## Directives that are read -/

/-- The instruction of as many operands as its operation takes. -/
theorem wellFormed_ofList {op : Opcode} {registers : List Register}
    (hlength : registers.length = op.operands)
    (h : ∀ r ∈ registers, r.index.toNat < Register.count) :
    (Instruction.ofList op registers).WellFormed := by
  have hoperands := operands_le op
  have hback : (Instruction.ofList op registers).registers = registers := by
    rw [Instruction.registers, Instruction.ofList, ← hlength]
    rw [← hlength] at hoperands
    match registers, hoperands with
    | [], _ | [_], _ | [_, _], _ | [_, _, _], _ => rfl
  refine ⟨hback.symm ▸ h, ?_⟩
  rw [Instruction.ofList, ← hlength]
  rw [← hlength] at hoperands
  match registers, hoperands with
  | [], _ | [_], _ | [_, _], _ | [_, _, _], _ => simp

/-- What is unpacked as an instruction is a well-formed one. -/
theorem unpackInstruction_cases {position : Nat} {r : Record} {d : Directive}
    (h : unpackInstruction position r = .ok d) : ∃ i, i.WellFormed ∧ d = .instruction i := by
  unfold unpackInstruction at h
  split at h
  · cases h
  split at h
  · cases h
  next hlength =>
    split at h
    · cases h
    next hfind =>
      cases h
      refine ⟨_, wellFormed_ofList (by simpa using hlength) fun register hregister => ?_, rfl⟩
      obtain ⟨number, hnumber, rfl⟩ := List.mem_map.1 hregister
      simpa using List.find?_eq_none.1 hfind number hnumber

/-- What is unpacked as a constant is a register with one word. -/
theorem unpackConstant_cases {position : Nat} {r : Record} {d : Directive}
    (h : unpackConstant position r = .ok d) : ∃ v register value, r.values = [v] ∧
      unpackValue position v = .ok value ∧ value.IsWord ∧ d = .constant register value := by
  unfold unpackConstant at h
  split at h
  next number v _ hvalues =>
    obtain ⟨value, hvalue, h⟩ := except_bind_ok.1 h
    split at h
    · cases h
    next hword =>
      cases h
      refine ⟨v, ⟨number⟩, value, hvalues, hvalue, ?_, rfl⟩
      cases value with
      | text s => exact hword s rfl
      | _ => trivial
  · cases h

/-- What a directive can be made of. -/
theorem unpackDirective_cases {position : Nat} {r : Record} {d : Directive}
    (h : unpackDirective position r = .ok d) :
    d = .label r.name ∨
    (∃ values, r.values.mapM (unpackValue position) = .ok values ∧ d = .data values) ∨
    (∃ i, i.WellFormed ∧ d = .instruction i) ∨
    ∃ v register value, r.values = [v] ∧ unpackValue position v = .ok value ∧ value.IsWord ∧
      d = .constant register value := by
  unfold unpackDirective at h
  split at h
  · cases h
    exact .inl rfl
  split at h
  · obtain ⟨values, hvalues, h⟩ := except_bind_ok.1 h
    cases h
    exact .inr (.inl ⟨values, hvalues, rfl⟩)
  split at h
  · exact .inr (.inr (.inl (unpackInstruction_cases h)))
  split at h
  · exact .inr (.inr (.inr (unpackConstant_cases h)))
  · cases h

/-- What is unpacked can be read. -/
theorem asRead_of_unpackDirective {position : Nat} {r : Record} {d : Directive}
    (h : unpackDirective position r = .ok d) : d.AsRead := by
  obtain rfl | ⟨values, -, rfl⟩ | ⟨i, hi, rfl⟩ | ⟨v, register, value, -, -, hword, rfl⟩ :=
    unpackDirective_cases h
  · trivial
  · trivial
  · exact hi
  · exact hword

/-! ## Lengths of what is read -/

/-- The text of a value out of at most `n` bytes. A byte that belongs to no character stands for
three. -/
def PackedValue.Within (n : Nat) (v : PackedValue) : Prop := v.text.utf8ByteSize ≤ 3 * n

/-- The texts and the list of a record out of at most `n` bytes. -/
structure Record.Within (n : Nat) (r : Record) : Prop where
  name : r.name.utf8ByteSize ≤ 3 * n
  length : r.values.length < maxLength
  values : ∀ v ∈ r.values, v.Within n

/-- Reading a header gives some header. -/
theorem gives_readHeader {n : Nat} : Gives n (fun _ => True) readHeader := by
  refine gives_record trivial ?_ trivial
  rw [List.forall_mem_cons, List.forall_mem_singleton]
  exact ⟨fun r _ => gives_number.anything.anything, fun r _ => gives_number.anything⟩

/-- Reading a value keeps to the bytes there are. -/
theorem gives_readValue {n : Nat} {old : PackedValue} (h : old.Within n) :
    Gives n (PackedValue.Within n) (readValue old) := by
  have hzero : PackedValue.Within n {} := Nat.zero_le _
  refine gives_record hzero ?_ h
  rw [List.forall_mem_cons, List.forall_mem_cons, List.forall_mem_singleton]
  exact ⟨fun v hv => gives_string.map fun s _ => hv,
    fun v hv => gives_number.anything.map fun w _ => hv,
    fun v hv => gives_string.map fun s hs => hs⟩

/-- Reading a record keeps to the bytes there are. -/
theorem gives_readRecord {n : Nat} : Gives n (Record.Within n) readRecord := by
  have hzero : Record.Within n {} := ⟨Nat.zero_le _, by decide, by simp⟩
  have hfresh : PackedValue.Within n {} := Nat.zero_le _
  refine gives_record hzero ?_ hzero
  rw [List.forall_mem_cons, List.forall_mem_cons, List.forall_mem_cons, List.forall_mem_cons,
    List.forall_mem_singleton]
  exact ⟨fun r hr => gives_string.map fun s _ => ⟨hr.name, hr.length, hr.values⟩,
    fun r hr => gives_string.map fun s hs => ⟨hs, hr.length, hr.values⟩,
    fun r hr => gives_string.map fun s _ => ⟨hr.name, hr.length, hr.values⟩,
    fun r hr => gives_bytes.map fun s _ => ⟨hr.name, hr.length, hr.values⟩,
    fun r hr => (gives_list hfresh (fun v hv => gives_readValue hv) hr.values).map
      fun values h => ⟨hr.name, h.1, h.2⟩⟩

/-- What is unpacked of a value that was read can be written. -/
theorem fits_of_unpackValue {n position : Nat} {packed : PackedValue} {v : Value}
    (h : unpackValue position packed = .ok v) (hpacked : packed.Within n)
    (hn : 3 * n < maxLength) : v.Fits := by
  have hlength : packed.text.utf8ByteSize < maxLength := Nat.lt_of_le_of_lt hpacked hn
  unfold unpackValue at h
  split at h
  · cases h
    trivial
  split at h
  · cases h
    exact hlength
  split at h
  · cases h
    exact hlength
  · cases h

/-- A list of values comes from as many packed ones. -/
theorem mapM_ok {ε α β : Type} {f : α → Except ε β} {l : List α} {bs : List β}
    (h : l.mapM f = .ok bs) : bs.length = l.length ∧ ∀ b ∈ bs, ∃ a ∈ l, f a = .ok b := by
  induction l generalizing bs with
  | nil =>
    cases h
    exact ⟨rfl, nofun⟩
  | cons a l ih =>
    rw [List.mapM_cons] at h
    obtain ⟨b, hb, h⟩ := except_bind_ok.1 h
    obtain ⟨bs, hbs, h⟩ := except_bind_ok.1 h
    cases h
    obtain ⟨hlength, hmem⟩ := ih hbs
    refine ⟨congrArg (· + 1) hlength, List.forall_mem_cons.2 ⟨⟨a, List.mem_cons_self, hb⟩, ?_⟩⟩
    exact fun c hc => (hmem c hc).imp fun a ha => ⟨List.mem_cons_of_mem _ ha.1, ha.2⟩

/-- What is made of a record is no longer than the record. -/
theorem fits_of_unpackDirective {n position : Nat} {r : Record} {d : Directive}
    (h : unpackDirective position r = .ok d) (hr : r.Within n) (hn : 3 * n < maxLength) :
    d.Fits := by
  obtain rfl | ⟨values, hvalues, rfl⟩ | ⟨i, -, rfl⟩ | ⟨v, register, value, hv, hvalue, -, rfl⟩ :=
    unpackDirective_cases h
  · exact Nat.lt_of_le_of_lt hr.name hn
  · obtain ⟨hlength, hmem⟩ := mapM_ok hvalues
    refine ⟨hlength ▸ hr.length, fun value hvalue => ?_⟩
    obtain ⟨v, hv, hvalue⟩ := hmem value hvalue
    exact fits_of_unpackValue hvalue (hr.values v hv) hn
  · trivial
  · exact fits_of_unpackValue hvalue (hr.values v (by simp [hv])) hn

/-! ## Streams that are read -/

/-- What all directives have that are made of records out of at most `n` bytes. -/
theorem forall_readDirectives {P : Directive → Prop} {n : Nat} {count : Int}
    (hP : ∀ position r d, unpackDirective position r = .ok d → r.Within n → P d) {left : Nat}
    {done ds : List Directive} {bytes : List UInt8} (hlength : bytes.length ≤ n)
    (hdone : ∀ d ∈ done, P d) (h : readDirectives count left done bytes = .ok ds) :
    ∀ d ∈ ds, P d := by
  induction left generalizing done bytes with
  | zero =>
    cases h
    exact fun d hd => hdone d (List.mem_reverse.1 hd)
  | succ left ih =>
    unfold readDirectives at h
    split at h
    · cases h
    · cases h
    next r rest hread =>
      obtain ⟨hrest, hr⟩ := gives_readRecord bytes r rest hlength hread
      split at h
      · cases h
      next d hd => exact ih hrest (List.forall_mem_cons.2 ⟨hP _ r d hd hr, hdone⟩) h

/-- What holds of every unpacked directive holds of those of a decoded stream. -/
theorem forall_decode {P : Directive → Prop} {bytes : List UInt8} {ds : List Directive}
    (hP : ∀ position r d, unpackDirective position r = .ok d → r.Within bytes.length → P d)
    (h : decode bytes = .ok ds) : ∀ d ∈ ds, P d := by
  obtain ⟨header, rest, hheader, -, -, hread⟩ := decode_cases h
  have hrest := (gives_readHeader bytes header rest (Nat.le_refl _) hheader).1
  exact forall_readDirectives hP hrest (by simp) hread

/-- What is read from any bytes is well formed but for the registers of constants, and it is read
back when it is written again. No text is too long for that unless the bytes are: one that belongs
to no character stands for three. -/
theorem decode_formed {bytes : List UInt8} {ds : List Directive} (h : decode bytes = .ok ds) :
    (∀ d ∈ ds, d.AsRead) ∧ ((∀ d ∈ ds, d.Fits) → decode (encode ds) = .ok ds) ∧
      (3 * bytes.length < maxLength → ∀ d ∈ ds, d.Fits) := by
  have hread : ∀ d ∈ ds, d.AsRead :=
    forall_decode (fun position r d hd _ => asRead_of_unpackDirective hd) h
  obtain ⟨header, rest, -, hpos, hroom, hds⟩ := decode_cases h
  have hlength := length_readDirectives hds
  rw [List.length_nil] at hlength
  refine ⟨hread, fun fits => decode_records hread fits (by omega), fun hbytes => ?_⟩
  exact forall_decode (fun position r d hd hr => fits_of_unpackDirective hd hr hbytes) h

/-- A header and a label, both as lists of all their fields. -/
def listedLabel : List UInt8 :=
  [0x92, 0x01, 0x01, 0x95, 0xA5, 0x6C, 0x61, 0x62, 0x65, 0x6C, 0xA1, 0x61, 0xA0, 0xC4, 0x00, 0x90]

/-- A label in a list of fields is decoded, and so is what it is encoded to. -/
theorem decode_formed_listed : decode listedLabel = .ok [.label "a"] ∧
    decode (encode [.label "a"]) = .ok [.label "a"] :=
  have h : decode listedLabel = .ok [.label "a"] := rfl
  ⟨h, (decode_formed h).2.1 ((decode_formed h).2.2 (by decide))⟩

/-- A constant in a register that no machine has. -/
def constantBeyond : List Directive := [.constant ⟨64⟩ (.immediate 7)]

/-- A constant for a register that does not exist is decoded from what it is encoded to. -/
theorem decode_constantBeyond : decode (encode constantBeyond) = .ok constantBeyond ∧
    ∃ d value, constantBeyond = [.constant d value] ∧ ¬ d.index.toNat < Register.count :=
  ⟨decode_records (by decide) (by decide) (by decide), _, _, rfl, by decide⟩

end Stream

end Qll.Assembly
