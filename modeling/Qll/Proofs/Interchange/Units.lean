import Mathlib.Data.List.Forall2
import Mathlib.Tactic.Common
import Qll.Interchange.Unit
import Qll.Proofs.Interchange.Nodes
import Qll.Proofs.Json.Reading
import Qll.Proofs.MessagePack.Reading

/-!
# Reading back a unit

A unit that is written in either encoding is read back node by node, missing nodes included, so it
means the same declarations or is malformed in the same way. MessagePack has no form for texts and
lists beyond its lengths. The reader of JSON stops at its depth limit; it takes texts and lists of
any length.
-/

namespace Qll.Interchange

open MessagePack (Value Reader Reads Fills maxLength reads_string reads_number reads_list
  reads_record)
open Json (Stops parseFirst_compact)

/-! ## Units that can be written -/

/-- The numbers of a node are numbers of 64 bits. -/
def Node.InRange (n : Node) : Prop :=
  ∀ i ∈ n.numbers, -9223372036854775808 ≤ i ∧ i < 9223372036854775808

/-- MessagePack has forms for the numbers of a node and for the lengths of its texts and lists. -/
structure Node.Fits (n : Node) : Prop where
  numbers : n.InRange
  texts : ∀ s ∈ n.texts, s.utf8ByteSize < maxLength
  textLists : ∀ items ∈ n.textLists, items.length < maxLength
  partLists : ∀ items ∈ n.partLists, items.length < maxLength

/-- The nodes of a unit, all those below others included. -/
def unitAll (unit : Option (List (Option Node))) : List Node := listAll (unit.getD [])

/-- MessagePack has forms for a unit and all its nodes. -/
structure Packable (unit : Option (List (Option Node))) : Prop where
  length : (unit.getD []).length < maxLength
  nodes : ∀ n ∈ unitAll unit, n.Fits

instance (n : Node) : Decidable n.InRange :=
  inferInstanceAs (Decidable (∀ i ∈ n.numbers, _ ∧ _))

instance (n : Node) : Decidable n.Fits :=
  decidable_of_iff (n.InRange ∧ (∀ s ∈ n.texts, s.utf8ByteSize < maxLength) ∧
    (∀ items ∈ n.textLists, items.length < maxLength) ∧
    ∀ items ∈ n.partLists, items.length < maxLength)
    ⟨fun h => ⟨h.1, h.2.1, h.2.2.1, h.2.2.2⟩,
      fun h => ⟨h.numbers, h.texts, h.textLists, h.partLists⟩⟩

instance (unit : Option (List (Option Node))) : Decidable (Packable unit) :=
  decidable_of_iff ((unit.getD []).length < maxLength ∧ ∀ n ∈ unitAll unit, n.Fits)
    ⟨fun h => ⟨h.1, h.2⟩, fun h => ⟨h.length, h.nodes⟩⟩

/-! ## Lengths -/

/-- The nodes of a list are packed one by one. -/
theorem packList_eq (nodes : List (Option Node)) : packList nodes = nodes.map packOption := by
  induction nodes with
  | nil => rfl
  | cons n nodes ih => rw [packList, ih, List.map_cons]

/-- An item is shorter than its list. -/
theorem length_encode_item {v : Value} {items : List Value} (h : v ∈ items) :
    v.encode.length < (Value.array items).encode.length := by
  have hitems : v.encode.length ≤ (MessagePack.encodeItems items).length := by
    induction h with
    | head items => simp [MessagePack.encodeItems]
    | tail w _ ih =>
      rw [MessagePack.encodeItems, List.length_append]
      omega
  have hhead : 0 < (MessagePack.arrayHead items.length).length := by
    unfold MessagePack.arrayHead
    grind
  rw [Value.encode, List.length_append]
  omega

/-- A field is shorter than its record. -/
theorem length_encode_field {f : String × Value} {fields : List (String × Value)}
    (h : f ∈ fields) : f.2.encode.length < (Value.map fields).encode.length := by
  have hfields : f.2.encode.length ≤ (MessagePack.encodeFields fields).length := by
    induction h with
    | head fields =>
      rw [MessagePack.encodeFields, List.length_append, List.length_append]
      omega
    | tail g _ ih =>
      rw [MessagePack.encodeFields, List.length_append, List.length_append]
      omega
  have hhead : 0 < (MessagePack.mapHead fields.length).length := by
    unfold MessagePack.mapHead
    grind
  rw [Value.encode, List.length_append]
  omega

/-- A packed element is shorter than the list it is in. -/
theorem length_pack_item {nodes : List (Option Node)} {c : Node} (h : some c ∈ nodes) :
    c.pack.encode.length < (Value.array (packList nodes)).encode.length :=
  length_encode_item (packList_eq nodes ▸ List.mem_map.2 ⟨some c, h, rfl⟩)

/-- A field that is written with a node in it. -/
theorem mem_field {n c : Node} (h : some c ∈ n.parts) :
    ∃ k < 23, ∃ f ∈ n.field k, c.pack.encode.length ≤ f.2.encode.length := by
  have hchild {name : String} {part : Option Node} (hc : some c = part) :
      ∃ f ∈ childField name part, c.pack.encode.length ≤ f.2.encode.length :=
    hc ▸ ⟨_, List.mem_singleton.2 rfl, Nat.le_refl _⟩
  have hchildren {name : String} {nodes : List (Option Node)} (hc : some c ∈ nodes) :
      ∃ f ∈ childrenField name nodes, c.pack.encode.length ≤ f.2.encode.length := by
    cases nodes with
    | nil => cases hc
    | cons n nodes => exact ⟨_, List.mem_singleton.2 rfl, Nat.le_of_lt (length_pack_item hc)⟩
  simp only [Node.parts, Node.partLists, List.flatten_cons, List.flatten_nil, List.mem_append,
    List.mem_cons, List.not_mem_nil, or_false, or_assoc] at h
  rcases h with h | h | h | h | h | h | h | h | h | h | h | h
  · exact ⟨7, by decide, hchild h⟩
  · exact ⟨8, by decide, hchild h⟩
  · exact ⟨9, by decide, hchild h⟩
  · exact ⟨10, by decide, hchild h⟩
  · exact ⟨11, by decide, hchild h⟩
  · exact ⟨12, by decide, hchild h⟩
  · exact ⟨13, by decide, hchild h⟩
  · exact ⟨14, by decide, hchildren h⟩
  · exact ⟨15, by decide, hchildren h⟩
  · exact ⟨16, by decide, hchildren h⟩
  · exact ⟨18, by decide, hchildren h⟩
  · exact ⟨19, by decide, hchildren h⟩

/-- A packed part is shorter than its node. -/
theorem length_pack_lt {n c : Node} (h : some c ∈ n.parts) :
    c.pack.encode.length < n.pack.encode.length := by
  obtain ⟨k, hk, f, hf, hlength⟩ := mem_field h
  rw [pack_eq n]
  exact Nat.lt_of_le_of_lt hlength
    (length_encode_field (List.mem_flatMap.2 ⟨k, List.mem_range.2 hk, hf⟩))

/-- Bytes that do not start with the code of nothing. -/
def Solid (bytes : List UInt8) : Prop := ∃ c more, bytes = c :: more ∧ c ≠ 0xC0

/-- A packed node does not look like nothing. -/
theorem solid_pack (n : Node) : Solid n.pack.encode := by
  have hlength : (n.written 23).length < maxLength :=
    Nat.lt_of_le_of_lt (length_written_le n 23) (by decide)
  obtain ⟨c, more, hhead, hc, -⟩ := MessagePack.mapHead_eq hlength
  refine ⟨c, more ++ MessagePack.encodeFields (n.written 23), ?_, hc⟩
  rw [pack_eq, Value.encode, hhead, List.cons_append]

/-- A packed list does not look like nothing. -/
theorem solid_array (items : List Value) : Solid (Value.array items).encode := by
  rw [Value.encode]
  unfold MessagePack.arrayHead
  split
  · refine ⟨_, _, rfl, fun hc => ?_⟩
    have := congrArg UInt8.toNat hc
    simp at this
    omega
  split
  · exact ⟨_, _, rfl, by decide⟩
  · exact ⟨_, _, rfl, by decide⟩

/-- Each level of a node takes at least one byte, so the bytes bound the depth of the reader. -/
theorem height_le_length (n : Node) : n.height ≤ n.pack.encode.length := by
  induction n using Node.induction with
  | step n ih =>
    obtain ⟨c, more, hpack, -⟩ := solid_pack n
    have hpos : 0 < n.pack.encode.length := by rw [hpack]; exact Nat.succ_pos _
    have hparts : listHeight n.parts ≤ n.pack.encode.length - 1 :=
      listHeight_le fun c hc => by have := ih c hc; have := length_pack_lt hc; omega
    rw [height_eq]
    omega

/-! ## MessagePack -/

/-- What is read where something is written. -/
theorem reads_solid {α : Type} {x y : Reader α} {bytes : List UInt8} {a : α}
    (hbytes : Solid bytes) (h : Reads y bytes a) :
    Reads (do if (← get).head? = some 0xC0 then x else y) bytes a := by
  intro rest
  obtain ⟨c, more, rfl, hc⟩ := hbytes
  have hhead : ¬ (c :: more ++ rest).head? = some 0xC0 := fun h => hc (Option.some.inj h)
  change (if (c :: more ++ rest).head? = some 0xC0 then x else y).run _ = _
  rw [if_neg hhead]
  exact h rest

section Slots

variable {node : Node → Reader Node} {n : Node}

/-- A node is read where one may be missing. -/
theorem reads_some (h : Reads (node {}) n.pack.encode n) :
    Reads (slotReader.optional node none) n.pack.encode (some n) :=
  reads_solid (solid_pack n) (h.map some)

/-- An item that may be missing. -/
theorem reads_item {part : Option Node}
    (h : ∀ c, part = some c → Reads (node {}) c.pack.encode c) :
    Reads (slotReader.optional node none) (packOption part).encode part := by
  cases part with
  | none => exact fun _ => rfl
  | some c => exact reads_some (h c rfl)

/-- A list of packed nodes is read again. -/
theorem reads_nodes {nodes : List (Option Node)} (hlength : nodes.length < maxLength)
    (h : ∀ c, some c ∈ nodes → Reads (node {}) c.pack.encode c) :
    Reads (Reader.list none (slotReader.optional node) []) (Value.array (packList nodes)).encode
      nodes := by
  refine reads_list (by rwa [packList_eq, List.length_map]) ?_
  rw [packList_eq, List.forall₂_map_left_iff, List.forall₂_same]
  exact fun part hpart => reads_item fun c hc => h c (hc ▸ hpart)

/-- A list of texts is read again. -/
theorem reads_texts {items : List String} (hlength : items.length < maxLength)
    (h : ∀ s ∈ items, s.utf8ByteSize < maxLength) :
    Reads (Reader.list "" (fun _ => Reader.string) []) (Value.array (items.map .string)).encode
      items := by
  refine reads_list (by rwa [List.length_map]) ?_
  rw [List.forall₂_map_left_iff, List.forall₂_same]
  exact fun s hs => reads_string (h s hs)

/-- A value of a node is read back into its place. -/
theorem reads_put {slot : Slot} {v : Value} {r r' : Node} (hput : Put n slot v r r')
    (hfits : n.Fits) (h : ∀ c, some c ∈ n.parts → Reads (node {}) c.pack.encode c) :
    Reads (slotReader node slot r) v.encode r' := by
  cases hput with
  | text hs => exact (reads_string (hfits.texts _ hs)).map _
  | int hi => exact (reads_number (hfits.numbers _ hi).1 (hfits.numbers _ hi).2).map _
  | int64 hi =>
    have := hfits.numbers _ hi
    exact (MessagePack.reads_number_signed 8 (by omega) (by omega) rfl).map _
  | texts hitems hold =>
    have hread := reads_texts (hfits.textLists _ hitems) fun s hs =>
      hfits.texts s (mem_texts hitems hs)
    rw [← hold] at hread
    exact reads_solid (solid_array _) (hread.map _)
  | child hc hold =>
    have hread := reads_some (h _ hc)
    rw [← hold] at hread
    exact hread.map _
  | children hitems hold =>
    have hread := reads_nodes (hfits.partLists _ hitems) fun c hc => h c (mem_parts hitems hc)
    rw [← hold] at hread
    exact hread.map _

end Slots

/-- What is done to the values of a table is done to what is found in it. -/
theorem lookup_map_snd {α β : Type} (f : α → β) (key : String) (l : List (String × α)) :
    (l.map fun (k, a) => (k, f a)).lookup key = (l.lookup key).map f := by
  induction l with
  | nil => rfl
  | cons p l ih =>
    rw [List.map_cons, List.lookup_cons, List.lookup_cons, ih]
    split
    · rfl
    · rfl

/-- The names of fields are short enough to be written. -/
theorem slot_name_fits {name : String} {slot : Slot} (h : slots.lookup name = some slot) :
    name.utf8ByteSize < maxLength := by
  have hnames : ∀ name ∈ slots.map Prod.fst, name.utf8ByteSize < maxLength := by decide
  obtain ⟨before, after, hslots, -⟩ := List.lookup_eq_some_iff.1 h
  exact hnames name (by simp [hslots])

/-- A field of a node is read in its place. -/
theorem fills_entry {n r r' : Node} {written : List (String × Value)}
    (hentry : Entry n r written r') (hfits : n.Fits) {node : Node → Reader Node}
    (h : ∀ c, some c ∈ n.parts → Reads (node {}) c.pack.encode c) :
    Fills (slots.map fun (name, slot) => (name, slotReader node slot)) r written r' := by
  cases hentry with
  | none => exact .nil _
  | one hslot hput =>
    exact .cons (slot_name_fits hslot) (by rw [lookup_map_snd, hslot]; rfl)
      (reads_put hput hfits h) (.nil _)

/-- Reading the first written fields of a node fills a node with them. -/
theorem fills_written {n : Node} (hfits : n.Fits) {node : Node → Reader Node}
    (h : ∀ c, some c ∈ n.parts → Reads (node {}) c.pack.encode c) (k : Nat) :
    Fills (slots.map fun (name, slot) => (name, slotReader node slot)) {} (n.written k)
      (n.upTo k) := by
  induction k with
  | zero => exact .nil _
  | succ k ih =>
    rw [written_succ]
    exact ih.append (fills_entry (entry_field n k) hfits h)

/-- A node is read back when the reader may go as deep as it is tall. -/
theorem reads_node (depth : Nat) {n : Node} (hdepth : n.height ≤ depth)
    (hfits : ∀ m ∈ n.all, m.Fits) : Reads (readNode depth {}) n.pack.encode n := by
  induction depth generalizing n with
  | zero => rw [height_eq] at hdepth; omega
  | succ depth ih =>
    have hparts (c : Node) (hc : some c ∈ n.parts) :
        Reads (readNode depth {}) c.pack.encode c :=
      ih (by have := height_lt hc; omega) fun m hm => hfits m (all_subset hc hm)
    have hfills := fills_written (hfits n (self_mem_all n)) hparts 23
    rw [upTo_all] at hfills
    rw [pack_eq]
    exact reads_record (Nat.lt_of_le_of_lt (length_written_le n 23) (by decide)) hfills

/-- The nodes of a unit are read back from its bytes. -/
theorem nodesOfBytes_unitBytes {unit : Option (List (Option Node))} (h : Packable unit) :
    nodesOfBytes (unitBytes unit) = some unit := by
  cases unit with
  | none => rfl
  | some nodes =>
    change nodesOfBytes (Value.array (packList nodes)).encode = some (some nodes)
    obtain ⟨c, more, hbytes, hc⟩ := solid_array (packList nodes)
    have hhead : (Value.array (packList nodes)).encode.head? ≠ some 0xC0 := by
      rw [hbytes]
      exact fun h => hc (Option.some.inj h)
    have hread : Reads (Reader.list none
        (slotReader.optional (readNode (Value.array (packList nodes)).encode.length)) [])
        (Value.array (packList nodes)).encode nodes :=
      reads_nodes h.length fun c hc =>
        reads_node _ (Nat.le_trans (height_le_length c) (Nat.le_of_lt (length_pack_item hc)))
          fun m hm => h.nodes m (all_subset_listAll hc hm)
    have hrun := hread []
    rw [List.append_nil] at hrun
    rw [nodesOfBytes, if_neg hhead]
    simp only [hrun]

/-! ## JSON -/

/-- The fields of a map keep their names and order in JSON. -/
theorem jsonFields_eq (fields : List (String × Value)) :
    MessagePack.jsonFields fields = fields.map fun f => (f.1, f.2.toJson) := by
  induction fields with
  | nil => rfl
  | cons f fields ih => rw [MessagePack.jsonFields, ih, List.map_cons]

mutual

/-- A value is written in JSON with whole numbers only. -/
theorem whole_toJson : ∀ v : Value, v.toJson.Whole
  | .null => .null
  | .string s => .string s
  | .bytes content => .array fun v hv => by
    obtain ⟨b, -, rfl⟩ := List.mem_map.1 hv
    exact .int b.toNat
  | .int i | .int64 i => .int i
  | .uint16 n | .uint32 n => .int n
  | .array items => .array (whole_jsonItems items)
  | .map fields => .object (whole_jsonFields fields)

/-- The numbers in the elements of a list are whole. -/
theorem whole_jsonItems : ∀ items : List Value, ∀ v ∈ MessagePack.jsonItems items, v.Whole
  | [], _, hv => by cases hv
  | v :: items, w, hw => by
    rw [MessagePack.jsonItems] at hw
    cases hw with
    | head => exact whole_toJson v
    | tail _ hw => exact whole_jsonItems items w hw

/-- The numbers in the fields of a map are whole. -/
theorem whole_jsonFields : ∀ fields : List (String × Value),
    ∀ f ∈ MessagePack.jsonFields fields, f.2.Whole
  | [], _, hf => by cases hf
  | (name, v) :: fields, f, hf => by
    rw [MessagePack.jsonFields] at hf
    cases hf with
    | head => exact whole_toJson v
    | tail _ hf => exact whole_jsonFields fields f hf

end

/-- The digits of a numeral, and what they count up to. -/
theorem repr_digits (n : Nat) : (Nat.repr n).toList.all Char.isDigit = true ∧
    (Nat.repr n).toList.foldl (fun n c => n * 10 + (c.toNat - 48)) 0 = n := by
  rw [Nat.toList_repr]
  refine ⟨List.all_eq_true.2 fun c hc =>
    Nat.isDigit_of_mem_toDigits (by decide) (by decide) hc, ?_⟩
  have hvalue := Nat.ofDigitChars_ten_toDigits (n := n)
  simp only [Nat.ofDigitChars, Nat.mul_comm 10] at hvalue
  exact hvalue

/-- A number of 64 bits is read back from its numeral. -/
theorem wholeNumber?_decimal {i : Int} (low : -9223372036854775808 ≤ i)
    (high : i < 9223372036854775808) : wholeNumber? (Text.decimal i) = some i := by
  have hwrap := Machine.wrap_of_bounds low high
  cases i with
  | ofNat n =>
    have hsign : Text.startsWith (Nat.repr n) "-" = false := by
      obtain ⟨c, more, hdigits, hc⟩ := Json.repr_cons n
      have hne : c ≠ '-' := by
        rintro rfl
        exact absurd hc (by decide)
      simp [Text.startsWith, hdigits, List.isPrefixOf, hne.symm]
    simp only [wholeNumber?, Text.decimal, hsign, Bool.false_eq_true, if_false, repr_digits,
      if_true]
    exact if_pos hwrap
  | negSucc n =>
    have hsign : Text.startsWith (Text.decimal (.negSucc n)) "-" = true := by
      simp [Text.startsWith, Json.decimal_negSucc]
    simp only [wholeNumber?, hsign, if_true, Json.decimal_negSucc, List.tail_cons, repr_digits]
    exact if_pos hwrap

/-- A list of texts is found again in JSON. -/
theorem jsonTexts_strings (items : List String) :
    jsonTexts (MessagePack.jsonItems (items.map .string)) [] = some items := by
  induction items with
  | nil => rfl
  | cons s items ih =>
    simp only [List.map_cons, MessagePack.jsonItems, Value.toJson, jsonTexts, List.tail_nil, ih,
      Option.bind_eq_bind, Option.bind_some]

/-- A list of packed nodes is found again in JSON. -/
theorem jsonList_packList {nodes : List (Option Node)}
    (h : ∀ c, some c ∈ nodes → jsonNode {} c.pack.toJson = some c) :
    jsonList [] (MessagePack.jsonItems (packList nodes)) = some nodes := by
  induction nodes with
  | nil => rfl
  | cons part nodes ih =>
    have hrest := ih fun c hc => h c (List.mem_cons_of_mem _ hc)
    have hpart : jsonOption none (packOption part).toJson = some part := by
      cases part with
      | none => rfl
      | some c =>
        have hread := h c List.mem_cons_self
        rw [pack_eq, Value.toJson, jsonNode] at hread
        rw [packOption, pack_eq, Value.toJson, jsonOption, Option.getD_none, hread, Option.map_some]
    rw [packList, MessagePack.jsonItems, jsonList]
    simp only [List.headD_nil, List.tail_nil, hpart, hrest, Option.bind_eq_bind, Option.bind_some]
    rfl

/-- A value of a node is read back into its place. -/
theorem jsonFields_put {n r r' : Node} {name : String} {slot : Slot} {v : Value}
    (hslot : slots.lookup name = some slot) (hput : Put n slot v r r') (hrange : n.InRange)
    (h : ∀ c, some c ∈ n.parts → jsonNode {} c.pack.toJson = some c)
    (rest : List (String × Json.Value)) :
    jsonFields r ((name, v.toJson) :: rest) = jsonFields r' rest := by
  have hname : slotOfJson? name = some slot := by rw [slotOfJson?, hslot]
  cases hput with
  | text hs =>
    rw [Value.toJson, jsonFields.eq_def]
    simp only [hname]
  | int hi | int64 hi =>
    have hread := wholeNumber?_decimal (hrange _ hi).1 (hrange _ hi).2
    rw [Value.toJson, Json.Value.int, jsonFields.eq_def]
    simp only [hname, hread, Option.bind_eq_bind, Option.bind_some]
  | texts hitems hold =>
    rw [Value.toJson, jsonFields.eq_def]
    simp only [hname, hold, jsonTexts_strings, Option.bind_eq_bind, Option.bind_some]
  | child hc hold =>
    have hread := h _ hc
    rw [pack_eq, Value.toJson, jsonNode] at hread
    rw [pack_eq, Value.toJson, jsonFields.eq_def]
    simp only [hname, hold, Option.getD_none, hread, Option.bind_eq_bind, Option.bind_some]
  | children hitems hold =>
    have hread := jsonList_packList fun c hc => h c (mem_parts hitems hc)
    rw [Value.toJson, jsonFields.eq_def]
    simp only [hname, hold, hread, Option.bind_eq_bind, Option.bind_some]

/-- The fields of a node, each read in its place. -/
theorem jsonFields_written {n : Node} (hrange : n.InRange)
    (h : ∀ c, some c ∈ n.parts → jsonNode {} c.pack.toJson = some c) (k : Nat)
    (rest : List (String × Json.Value)) :
    jsonFields {} (MessagePack.jsonFields (n.written k) ++ rest) = jsonFields (n.upTo k) rest := by
  induction k generalizing rest with
  | zero => rfl
  | succ k ih =>
    have hentry {r r' : Node} {written : List (String × Value)} (hentry : Entry n r written r') :
        jsonFields r (MessagePack.jsonFields written ++ rest) = jsonFields r' rest := by
      cases hentry with
      | none => rfl
      | one hslot hput => exact jsonFields_put hslot hput hrange h rest
    rw [written_succ, jsonFields_eq, List.map_append, List.append_assoc, ← jsonFields_eq,
      ← jsonFields_eq, ih, hentry (entry_field n k)]

/-- A node is read back. -/
theorem jsonNode_pack {n : Node} (hrange : ∀ m ∈ n.all, m.InRange) :
    jsonNode {} n.pack.toJson = some n := by
  induction n using Node.induction with
  | step n ih =>
    have hread := jsonFields_written (hrange n (self_mem_all n))
      (fun c hc => ih c hc fun m hm => hrange m (all_subset hc hm)) 23 []
    rw [List.append_nil, upTo_all] at hread
    rw [pack_eq, Value.toJson, jsonNode, hread]
    rfl

/-- The nodes of a unit are read back from its text. -/
theorem readNodes_unitText {unit : Option (List (Option Node))}
    (hrange : ∀ n ∈ unitAll unit, n.InRange)
    (hdepth : (packUnit unit).toJson.depth ≤ Json.maxDepth) :
    readNodes .json (Text.toBytes (unitText unit)) = some unit := by
  have hline : Stops ['\n'] := Json.stops_cons (by decide) []
  have hfirst := parseFirst_compact (whole_toJson (packUnit unit)) hdepth hline
  rw [readNodes, Text.toBytes_eq, Text.decodeFrom_encode, unitText, String.toList_append]
  change (Json.parseFirst ((packUnit unit).toJson.compact.toList ++ ['\n'])).bind nodesOfJson = _
  rw [hfirst, Option.bind_some]
  cases unit with
  | none => rfl
  | some nodes =>
    rw [packUnit, Value.toJson, nodesOfJson, jsonList_packList, Option.map_some]
    exact fun c hc => jsonNode_pack fun m hm => hrange m (all_subset_listAll hc hm)

/-! ## Declarations -/

/-- A unit means what its nodes mean. -/
theorem readUnit_eq {format : Format} {bytes : List UInt8} {unit : Option (List (Option Node))}
    (h : readNodes format bytes = some unit) :
    readUnit format bytes = (build (unit.getD [])).mapError .malformed := by
  rw [readUnit, h]
  dsimp only
  cases build (unit.getD []) <;> rfl

/-- A unit that is written in MessagePack is read back, and it means the same declarations, or is
malformed in the same way, as the nodes that were written. -/
theorem messagePack_roundTrip {unit : Option (List (Option Node))} (h : Packable unit) :
    readNodes .messagePack (unitBytes unit) = some unit ∧
      readUnit .messagePack (unitBytes unit) = (build (unit.getD [])).mapError .malformed :=
  have hread : readNodes .messagePack (unitBytes unit) = some unit := nodesOfBytes_unitBytes h
  ⟨hread, readUnit_eq hread⟩

/-- A unit with missing nodes and with numbers and texts that have several forms. -/
def mixedUnit : Option (List (Option Node)) :=
  some [none, some {
    kind := "global", name := "a\"<\u2028é😀", value := -9223372036854775808,
    length := 9223372036854775807, flags := ["exported", ""], line := 128, column := -33,
    expr := some { kind := "call", expr := some {}, args := [none, some { value := 65536 }, none] }
  }]

/-- A unit with nodes of several kinds is read again from its bytes. -/
theorem messagePack_roundTrip_mixed : Packable mixedUnit ∧
    readNodes .messagePack (unitBytes mixedUnit) = some mixedUnit :=
  have h : Packable mixedUnit := by decide
  ⟨h, (messagePack_roundTrip h).1⟩

/-- A unit that is written in JSON is read back as long as its nodes are not nested too deep for the
reader, so it means the same whether it is written in JSON or in MessagePack. -/
theorem json_roundTrip {unit : Option (List (Option Node))} (hrange : ∀ n ∈ unitAll unit, n.InRange)
    (hdepth : (packUnit unit).toJson.depth ≤ Json.maxDepth) :
    readNodes .json (Text.toBytes (unitText unit)) = some unit ∧
      readUnit .json (Text.toBytes (unitText unit)) =
        (build (unit.getD [])).mapError .malformed ∧
      (Packable unit → readUnit .json (Text.toBytes (unitText unit)) =
        readUnit .messagePack (unitBytes unit)) := by
  have hread := readNodes_unitText hrange hdepth
  refine ⟨hread, readUnit_eq hread, fun h => ?_⟩
  have hpacked : readNodes .messagePack (unitBytes unit) = some unit := nodesOfBytes_unitBytes h
  rw [readUnit_eq hread, readUnit_eq hpacked]

/-- A unit with nodes of several kinds is read again from its JSON text. -/
theorem json_roundTrip_mixed : (∀ n ∈ unitAll mixedUnit, n.InRange) ∧
    (packUnit mixedUnit).toJson.depth ≤ Json.maxDepth ∧
    readNodes .json (Text.toBytes (unitText mixedUnit)) = some mixedUnit :=
  have hrange : ∀ n ∈ unitAll mixedUnit, n.InRange := by decide
  have hdepth : (packUnit mixedUnit).toJson.depth ≤ Json.maxDepth := by decide
  ⟨hrange, hdepth, (json_roundTrip hrange hdepth).1⟩

end Qll.Interchange
