import Qll.Proofs.Assembly.Closed
import Qll.Proofs.Machine.Runs

/-!
# Code in place

`Placed image a code` says that the directives `code` lie in an image from address `a` on: each
label has the address at which it stands, and each instruction or constant is the cell at its
address and knows where the next one starts. Code that is in place is run piece by piece, and the
pieces of an emitted sequence are in place one behind the other. A closed stream that fits the memory
assembles, and `Image.LaysOut` says where everything in it lies.
-/

namespace Qll.Machine

open Assembly (Directive Instruction Value totalSize)

/-- The word that a constant loads. -/
def Image.constantWord (image : Image) : Value → Option Word
  | .immediate w => some w
  | .reference label => some (Image.resolve image.labels label)
  | .text _ => none

/-- A directive lies at an address of an image. -/
def Holds (image : Image) (a : Nat) : Directive → Prop
  | .label name => image.label? name = some (UInt32.ofNat a)
  | .instruction i =>
    a < 4294967296 ∧ image.cells[a]?.join = some ⟨.instruction i, UInt32.ofNat (a + 1)⟩
  | .constant r v =>
    a < 4294967296 ∧
      image.cells[a]?.join = some ⟨.constant r (image.constantWord v), UInt32.ofNat (a + 2)⟩
  | .data values =>
    ∀ i w, (values.flatMap (Image.valueWords image.labels))[i]? = some w →
      image.memory[a + i]? = some w

/-- Directives lie in an image from an address on. -/
def Placed (image : Image) : Nat → List Directive → Prop
  | _, [] => True
  | a, d :: rest => Holds image a d ∧ Placed image (a + d.size) rest

section Placed

variable {image : Image} {a : Nat} {code front back : List Directive}

/-- No directives take no place. -/
@[simp] theorem placed_nil : Placed image a [] := trivial

/-- Directives are placed one behind another. -/
@[simp] theorem placed_cons {d : Directive} :
    Placed image a (d :: code) ↔ Holds image a d ∧ Placed image (a + d.size) code := Iff.rfl

/-- Two sequences in a row are in place when each is. -/
theorem placed_append :
    Placed image a (front ++ back) ↔
      Placed image a front ∧ Placed image (a + totalSize front) back := by
  induction front generalizing a with
  | nil => simp [totalSize]
  | cons d front ih =>
    simp only [List.cons_append, placed_cons, ih, totalSize, Number.total_cons, and_assoc,
      Nat.add_assoc]

end Placed

/-! ## The size of code -/

/-- No directives take no words. -/
@[simp] theorem totalSize_nil : totalSize [] = 0 := rfl

/-- The words of a directive are counted first. -/
@[simp] theorem totalSize_cons (d : Directive) (code : List Directive) :
    totalSize (d :: code) = d.size + totalSize code := rfl

/-- The words of two streams in a row add up. -/
@[simp] theorem totalSize_append (front back : List Directive) :
    totalSize (front ++ back) = totalSize front + totalSize back := by
  simp [totalSize]

/-- A label takes no words. -/
@[simp] theorem size_label (name : String) : (Directive.label name).size = 0 := rfl

/-- An instruction takes one word. -/
@[simp] theorem size_instruction (i : Instruction) : (Directive.instruction i).size = 1 := rfl

/-- A constant takes two words, the instruction and its operand. -/
@[simp] theorem size_constant (r : Register) (v : Value) : (Directive.constant r v).size = 2 := rfl

/-! ## Running code in place -/

section Fetching

variable {image : Image} {a : Nat} {s : State}

/-- An instruction in place is fetched. -/
theorem Holds.fetches {i : Instruction} (h : Holds image a (.instruction i))
    (hs : s.pc = UInt32.ofNat a) : Fetches image s (.instruction i) (UInt32.ofNat (a + 1)) := by
  obtain ⟨hlt, hcell⟩ := h
  unfold Fetches
  rw [hs, UInt32.toNat_ofNat_of_lt' hlt]
  exact hcell

/-- A constant in place is fetched. -/
theorem Holds.fetchesConstant {r : Register} {v : Value} {w : Word}
    (h : Holds image a (.constant r v)) (hw : image.constantWord v = some w)
    (hs : s.pc = UInt32.ofNat a) :
    Fetches image s (.constant r (some w)) (UInt32.ofNat (a + 2)) := by
  obtain ⟨hlt, hcell⟩ := h
  unfold Fetches
  rw [hs, UInt32.toNat_ofNat_of_lt' hlt, hcell, hw]

/-- A reference to a defined label loads its address. -/
theorem constantWord_reference {label : String} {w : Word} (h : image.label? label = some w) :
    image.constantWord (.reference label) = some w := by
  unfold Image.label? at h
  simp [Image.constantWord, Image.resolve, h]

end Fetching

section Running

variable {image : Image} (handlers : Handlers) {a : Nat} {s : State}

/-- An instruction with its operands. -/
abbrev ins (op : Opcode) (registers : List Register) : Directive :=
  .instruction (.ofList op registers)

/-- The first register number exists. -/
theorem zero_lt_count : (⟨0⟩ : Register).toNat < 64 := by decide

/-- Runs a constant. -/
theorem reaches_constant {r : Register} {v : Value} {w : Word} (hp : Holds image a (.constant r v))
    (hw : image.constantWord v = some w) (hs : s.pc = UInt32.ofNat a) (hr : r.Writable)
    (hone : s.reg .one = 1) :
    Reaches image handlers s (s.assign r w (UInt32.ofNat (a + 2))) :=
  .single (step_constant (hp.fetchesConstant hw hs) hr hone)

/-- Runs a copy of a register. -/
theorem reaches_mov {d x : Register} (hp : Holds image a (ins .mov [d, x]))
    (hs : s.pc = UInt32.ofNat a) (hd : d.Writable) (hx : x.toNat < 64) (hone : s.reg .one = 1) :
    Reaches image handlers s (s.assign d (s.reg x) (UInt32.ofNat (a + 1))) :=
  .single (step_mov (hp.fetches hs) hd hx zero_lt_count hone)

/-- Runs an operation on two registers. -/
theorem reaches_binary {op : Opcode} {d x y : Register} {w : Word}
    (hp : Holds image a (ins op [d, x, y]))
    (hs : s.pc = UInt32.ofNat a) (hw : binary s.pc op (s.reg x) (s.reg y) = .ok w)
    (hd : d.Writable) (hx : x.toNat < 64) (hy : y.toNat < 64) (hone : s.reg .one = 1) :
    Reaches image handlers s (s.assign d w (UInt32.ofNat (a + 1))) :=
  .single (step_binary (hp.fetches hs) hw hd hx hy hone)

/-- Runs a load from inside memory. -/
theorem reaches_load {d x : Register} (hp : Holds image a (ins .load [d, x]))
    (hs : s.pc = UInt32.ofNat a) (hin : (s.reg x).toNat < s.memory.size)
    (hd : d.Writable) (hx : x.toNat < 64) (hone : s.reg .one = 1) :
    Reaches image handlers s (s.assign d (s.word (s.reg x).toNat) (UInt32.ofNat (a + 1))) :=
  .single (step_load (hp.fetches hs) hin hd hx zero_lt_count hone)

/-- Runs a store into memory. -/
theorem reaches_store {d x : Register} (hp : Holds image a (ins .store [d, x]))
    (hs : s.pc = UInt32.ofNat a) (hin : (s.reg d).toNat < s.memory.size)
    (hd : d.toNat < 64) (hx : x.toNat < 64) (hone : s.reg .one = 1) :
    Reaches image handlers s (s.put (s.reg d).toNat (s.reg x) (UInt32.ofNat (a + 1))) :=
  .single (step_store (hp.fetches hs) hin hd hx zero_lt_count hone)

/-- Runs a jump. -/
theorem reaches_jmp {d : Register} (hp : Holds image a (ins .jmp [d]))
    (hs : s.pc = UInt32.ofNat a) (hd : d.toNat < 64) (hone : s.reg .one = 1) :
    Reaches image handlers s (s.goto (s.reg d)) :=
  .single (step_jmp (hp.fetches hs) hd zero_lt_count zero_lt_count hone)

/-- Runs a jump that depends on a register being zero. -/
theorem reaches_jz {d x : Register} (hp : Holds image a (ins .jz [d, x]))
    (hs : s.pc = UInt32.ofNat a) (hd : d.toNat < 64) (hx : x.toNat < 64) (hone : s.reg .one = 1) :
    Reaches image handlers s
      (s.goto (if s.reg d = 0 then s.reg x else UInt32.ofNat (a + 1))) :=
  .single (step_jz (hp.fetches hs) hd hx zero_lt_count hone)

/-- Runs a jump that depends on a register not being zero. -/
theorem reaches_jnz {d x : Register} (hp : Holds image a (ins .jnz [d, x]))
    (hs : s.pc = UInt32.ofNat a) (hd : d.toNat < 64) (hx : x.toNat < 64) (hone : s.reg .one = 1) :
    Reaches image handlers s
      (s.goto (if s.reg d = 0 then UInt32.ofNat (a + 1) else s.reg x)) :=
  .single (step_jnz (hp.fetches hs) hd hx zero_lt_count hone)

/-- Stops the machine with a word in the return register. -/
theorem halts_of_holds {w : Word} (hp : Holds image a (.constant .result (.immediate w)))
    (hp' : Holds image (a + 2) (ins .halt [])) (hs : s.pc = UInt32.ofNat a)
    (hone : s.reg .one = 1) : Halts image handlers s w := by
  refine ⟨_, reaches_constant handlers hp rfl hs Register.writable_result hone,
    step_halt (hp'.fetches rfl) zero_lt_count zero_lt_count, ?_⟩
  exact State.reg_assign_self _ _ _ _ (by decide)

end Running

/-! ## Assembled streams are in place

A stream that assembles defines each label once, so the address of a label is the size of what
stands in front of it. The layout of a stream is as long as the stream is large, so the cells and
words of a directive start at its address. Together, `placed_of_assemble`: the whole stream lies in
its image from address zero on. -/

open Assembly (Defect labels)

section Labels

variable {name : String} {front rest : List Directive}

/-- The labels of two streams in a row. -/
theorem labels_append : labels (front ++ rest) = labels front ++ labels rest :=
  List.filterMap_append

/-- A stream without a repeated label defines each label once, and none of those seen before. -/
theorem nodup_of_findTwice {ds : List Directive} {position : Nat} {seen : List (String × Nat)}
    (h : Defect.findTwice ds position seen = none) :
    (labels ds).Nodup ∧ ∀ name ∈ labels ds, seen.lookup name = none := by
  induction ds generalizing position seen with
  | nil => simp [labels]
  | cons d rest ih =>
    cases d with
    | label name =>
      simp only [Defect.findTwice] at h
      split at h
      · cases h
      · next hname =>
        obtain ⟨hnodup, hseen⟩ := ih h
        have hlabels : labels (.label name :: rest) = name :: labels rest := rfl
        rw [hlabels, List.nodup_cons]
        refine ⟨⟨fun hmem => ?_, hnodup⟩, fun other hother => ?_⟩
        · have := hseen name hmem
          rw [List.lookup_cons, beq_self_eq_true] at this
          cases this
        · rcases List.mem_cons.1 hother with rfl | hmem
          · exact hname
          · have := hseen other hmem
            rw [List.lookup_cons] at this
            split at this
            · cases this
            · exact this
    | data values => exact ih h
    | instruction i => exact ih h
    | constant r value => exact ih h

/-- A label that is defined once stands behind what is in front of it. -/
theorem lookup_labelTable {a : Nat} (h : name ∉ labels front) :
    (Image.labelTable (front ++ .label name :: rest) a).lookup name =
      some (UInt32.ofNat (a + totalSize front)) := by
  induction front generalizing a with
  | nil => simp [Image.labelTable]
  | cons d front ih =>
    cases d with
    | label other =>
      have hlabels : labels (.label other :: front) = other :: labels front := rfl
      rw [hlabels, List.mem_cons, not_or] at h
      simp only [List.cons_append, Image.labelTable, List.lookup_cons, beq_false_of_ne h.1]
      simpa using ih h.2
    | data values =>
      simp only [List.cons_append, Image.labelTable, totalSize_cons, ← Nat.add_assoc]
      exact ih h
    | instruction i =>
      simp only [List.cons_append, Image.labelTable, totalSize_cons, ← Nat.add_assoc]
      exact ih h
    | constant r value =>
      simp only [List.cons_append, Image.labelTable, totalSize_cons, ← Nat.add_assoc]
      exact ih h

end Labels

/-! ## The layout -/

section Layout

variable {table : List (String × Word)} {a : Nat}

/-- A value fills as many words as it is large. -/
theorem length_valueWords (v : Value) : (Image.valueWords table v).length = v.size := by
  cases v with
  | immediate w => rfl
  | reference label => rfl
  | text s => rw [Image.valueWords, List.length_map, String.length_toList, Value.size]

/-- The words of values are as many as the values are large. -/
theorem length_flatMap_valueWords (values : List Value) :
    (values.flatMap (Image.valueWords table)).length = Number.total Value.size values := by
  induction values with
  | nil => rfl
  | cons v values ih =>
    rw [List.flatMap_cons, List.length_append, length_valueWords, ih, Number.total_cons]

/-- A directive is placed on as many addresses as it is large. -/
theorem length_place (d : Directive) : (Image.place table a d).length = d.size := by
  cases d with
  | label name => rfl
  | instruction i => rfl
  | constant r value => rfl
  | data values => rw [Image.place, List.length_map, length_flatMap_valueWords, Directive.size]

/-- A stream is laid out on as many addresses as it is large. -/
theorem length_layout (ds : List Directive) : (Image.layout table ds a).length = totalSize ds := by
  induction ds generalizing a with
  | nil => rfl
  | cons d rest ih => rw [Image.layout, List.length_append, length_place, ih, totalSize_cons]

/-- Two streams in a row are laid out one behind the other. -/
theorem layout_append (front back : List Directive) :
    Image.layout table (front ++ back) a =
      Image.layout table front a ++ Image.layout table back (a + totalSize front) := by
  induction front generalizing a with
  | nil => simp [Image.layout]
  | cons d front ih =>
    simp only [List.cons_append, Image.layout, ih, totalSize_cons, List.append_assoc, Nat.add_assoc]

/-- What a directive is placed as is found from its address on. -/
theorem getElem?_layout (front rest : List Directive) (d : Directive) {i : Nat} (h : i < d.size) :
    (Image.layout table (front ++ d :: rest) 0)[totalSize front + i]? =
      (Image.place table (totalSize front) d)[i]? := by
  rw [layout_append, List.getElem?_append_right (by rw [length_layout]; omega), length_layout,
    Nat.add_sub_cancel_left, Image.layout, List.getElem?_append_left (by rwa [length_place]),
    Nat.zero_add]

end Layout

/-! ## Assembling -/

/-- What assembling a stream gives. -/
theorem assemble_ok {ds : List Directive} {memory : Nat} {image : Image}
    (h : Image.assemble ds memory = .ok image) :
    Defect.find ds = none ∧ totalSize ds ≤ memory ∧
      image.labels = Image.labelTable ds 0 ∧
      image.cells = ((Image.layout image.labels ds 0).map Prod.fst).toArray ∧
      image.memory = ((Image.layout image.labels ds 0).map Prod.snd).toArray ++
        Array.replicate (memory - totalSize ds) 0 := by
  unfold Image.assemble at h
  split at h
  · cases h
  · next hfind =>
    dsimp only at h
    split at h
    · cases h
    · next hle =>
      cases h
      exact ⟨hfind, by omega, rfl, rfl, rfl⟩

/-- A memory image is as large as asked for. -/
theorem size_memory_of_assemble {ds : List Directive} {memory : Nat} {image : Image}
    (h : Image.assemble ds memory = .ok image) : image.memory.size = memory := by
  obtain ⟨-, hle, -, -, hmemory⟩ := assemble_ok h
  rw [hmemory]
  simp only [Array.size_append, List.size_toArray, List.length_map, length_layout,
    Array.size_replicate]
  omega

/-- An assembled stream lies in its image. -/
theorem placed_of_assemble {ds : List Directive} {memory : Nat} {image : Image}
    (h : Image.assemble ds memory = .ok image) (hsize : totalSize ds ≤ 4294967296) :
    Placed image 0 ds := by
  obtain ⟨hfind, -, hlabels, hcells, hmemory⟩ := assemble_ok h
  have hnodup : (labels ds).Nodup := by
    unfold Defect.find at hfind
    split at hfind
    · cases hfind
    · next htwice => exact (nodup_of_findTwice htwice).1
  -- The induction is on what is still to be placed; what is in front of it gives the address.
  suffices hall : ∀ rest front, ds = front ++ rest → Placed image (totalSize front) rest from
    hall ds [] rfl
  intro rest
  induction rest with
  | nil => exact fun _ _ => trivial
  | cons d rest ih =>
    intro front hds
    have hnext : Placed image (totalSize front + d.size) rest := by
      have := ih (front ++ [d]) (by rw [hds, List.append_assoc]; rfl)
      rwa [totalSize_append, totalSize_cons, totalSize_nil, Nat.add_zero] at this
    refine ⟨?_, hnext⟩
    have hlt : totalSize front + d.size ≤ 4294967296 := by
      rw [hds, totalSize_append, totalSize_cons] at hsize
      omega
    have hcell (i : Nat) (hi : i < d.size) : image.cells[totalSize front + i]? =
        (Image.place image.labels (totalSize front) d)[i]?.map Prod.fst := by
      rw [hcells, List.getElem?_toArray, List.getElem?_map, hds, getElem?_layout _ _ _ hi]
    cases d with
    | label name =>
      have hname : name ∉ labels front := by
        intro hmem
        rw [hds, labels_append, List.nodup_append] at hnodup
        exact hnodup.2.2 name hmem name List.mem_cons_self rfl
      change image.labels.lookup name = _
      rw [hlabels, hds, lookup_labelTable hname, Nat.zero_add]
    | instruction i =>
      have := hcell 0 (by simp)
      refine ⟨by simp at hlt; omega, ?_⟩
      rw [← Nat.add_zero (totalSize front), this]
      rfl
    | constant r value =>
      have := hcell 0 (by simp)
      refine ⟨by simp at hlt; omega, ?_⟩
      rw [← Nat.add_zero (totalSize front), this]
      cases value <;> rfl
    | data values =>
      intro i w hw
      have hi : i < Directive.size (.data values) := by
        rw [Directive.size, ← length_flatMap_valueWords]
        exact (List.getElem?_eq_some_iff.1 hw).1
      have hword : (Image.layout image.labels ds 0)[totalSize front + i]? = some (none, w) := by
        rw [hds, getElem?_layout _ _ _ hi]
        simp only [Image.place, List.getElem?_map, hw, Option.map_some]
      rw [hmemory, Array.getElem?_append_left]
      · rw [List.getElem?_toArray, List.getElem?_map, hword, Option.map_some]
      · simpa using (List.getElem?_eq_some_iff.1 hword).1

/-! ## The layout of a closed stream

Placement speaks of the directives of a stream one by one. For the stream as a whole: a directive is
found by what stands in front of it, and every address of a stream belongs to one of its directives. -/

section Laying

/-- A directive of a stream, behind the ones in front of it. -/
def Follows (ds front : List Directive) (d : Directive) : Prop := ∃ back, ds = front ++ d :: back

variable {ds front back : List Directive} {d : Directive}

/-- A directive of a stream in place lies behind what is in front of it. -/
theorem Placed.holds {image : Image} (h : Placed image 0 ds) (hd : Follows ds front d) :
    Holds image (totalSize front) d := by
  obtain ⟨back, rfl⟩ := hd
  exact Nat.zero_add (totalSize front) ▸ (placed_append.1 h).2.1

/-- A directive stands within the stream it is in. -/
theorem Follows.size_le (h : Follows ds front d) : totalSize front + d.size ≤ totalSize ds := by
  obtain ⟨back, rfl⟩ := h
  rw [totalSize_append, totalSize_cons]
  omega

/-- The place at which a label is defined. -/
theorem follows_of_mem_labels {name : String} (h : name ∈ labels ds) :
    ∃ front, Follows ds front (.label name) := by
  obtain ⟨d, hd, hname⟩ := List.mem_filterMap.1 h
  have hlabel : d = .label name := by
    cases d with
    | label other => rw [Option.some.inj hname]
    | data values => cases hname
    | instruction i => cases hname
    | constant r value => cases hname
  exact hlabel ▸ List.append_of_mem hd

/-- The directive to which an address of a stream belongs. -/
theorem follows_of_lt {a : Nat} (h : a < totalSize ds) :
    ∃ front d i, Follows ds front d ∧ i < d.size ∧ a = totalSize front + i := by
  induction ds generalizing a with
  | nil => cases h
  | cons d rest ih =>
    by_cases hd : a < d.size
    · exact ⟨[], d, a, ⟨rest, rfl⟩, hd, (Nat.zero_add a).symm⟩
    · rw [totalSize_cons] at h
      obtain ⟨front, d', i, ⟨back, hrest⟩, hi, ha⟩ := ih (a := a - d.size) (by omega)
      refine ⟨d :: front, d', i, ⟨back, by rw [hrest, List.cons_append]⟩, hi, ?_⟩
      rw [totalSize_cons]
      omega

/-- The words that a value stands for in a stream. A label stands for the sum of the sizes in front of
the place that defines it. -/
inductive Stands (ds : List Directive) : Value → List Word → Prop
  | immediate (w : Word) : Stands ds (.immediate w) [w]
  | text (s : String) : Stands ds (.text s) (s.toList.map Char.val)
  | reference {front : List Directive} {label : String} {a : Word}
    (h : Follows ds front (.label label)) (ha : a.toNat = totalSize front) :
    Stands ds (.reference label) [a]

/-- How a stream lies in an image from address zero on. -/
structure Image.LaysOut (image : Image) (ds : List Directive) (memory : Nat) : Prop where
  size : image.memory.size = memory
  label : ∀ front name, Follows ds front (.label name) →
    ∃ a, image.label? name = some a ∧ a.toNat = totalSize front
  instruction : ∀ front i, Follows ds front (.instruction i) →
    ∃ next, image.cells[totalSize front]?.join = some ⟨.instruction i, next⟩ ∧
      next.toNat = totalSize front + (Directive.instruction i).size
  constant : ∀ front r v, Follows ds front (.constant r v) →
    ∃ next, image.cells[totalSize front]?.join = some ⟨.constant r (image.constantWord v), next⟩ ∧
      next.toNat = totalSize front + (Directive.constant r v).size
  data : ∀ front before v after, Follows ds front (.data (before ++ v :: after)) →
    ∃ words, Stands ds v words ∧ words.length = v.size ∧ ∀ i w, words[i]? = some w →
      image.memory[totalSize front + Number.total Value.size before + i]? = some w
  rest : ∀ a < memory,
    (∀ front values, Follows ds front (.data values) →
      a < totalSize front ∨ totalSize front + (Directive.data values).size ≤ a) →
    image.memory[a]? = some 0

variable {image : Image} {memory : Nat}

/-- The words of a value are those that it stands for. -/
theorem stands_valueWords (hclosed : Defect.find ds = none)
    (hlabel : ∀ front name, Follows ds front (.label name) →
      ∃ a, image.label? name = some a ∧ a.toNat = totalSize front)
    {v : Value} (hv : ∀ name ∈ v.references, name ∈ Assembly.references ds) :
    Stands ds v (Image.valueWords image.labels v) := by
  cases v with
  | immediate w => exact .immediate w
  | text s => exact .text s
  | reference name =>
    obtain ⟨front, hfollows⟩ := follows_of_mem_labels
      (Defect.mem_labels_of_find hclosed (hv name (List.mem_singleton_self name)))
    obtain ⟨a, ha, hat⟩ := hlabel front name hfollows
    have hlookup : image.labels.lookup name = some a := ha
    rw [Image.valueWords, Image.resolve, hlookup, Option.getD_some]
    exact .reference hfollows hat

/-- A word of a directive other than data is zero. -/
theorem place_word {table : List (String × Word)} {a i : Nat} (hd : ∀ values, d ≠ .data values)
    (hi : i < d.size) : ((Image.place table a d)[i]?).map Prod.snd = some 0 := by
  cases d with
  | label name => cases hi
  | instruction j =>
    obtain rfl : i = 0 := Nat.lt_one_iff.1 hi
    rfl
  | constant r v =>
    obtain rfl | rfl : i = 0 ∨ i = 1 := Nat.le_one_iff_eq_zero_or_eq_one.1 (Nat.le_of_lt_succ hi)
    · rfl
    · rfl
  | data values => exact absurd rfl (hd values)

/-- Where no data lies, the words are zero. -/
theorem memory_rest (h : Image.assemble ds memory = .ok image) {a : Nat} (ha : a < memory)
    (hapart : ∀ front values, Follows ds front (.data values) →
      a < totalSize front ∨ totalSize front + (Directive.data values).size ≤ a) :
    image.memory[a]? = some 0 := by
  obtain ⟨-, hle, -, -, hmemory⟩ := assemble_ok h
  have hsize : (((Image.layout image.labels ds 0).map Prod.snd).toArray : Array Word).size =
      totalSize ds := by
    rw [List.size_toArray, List.length_map, length_layout]
  rw [hmemory]
  by_cases hin : a < totalSize ds
  · obtain ⟨front, d, i, hfollows, hi, rfl⟩ := follows_of_lt hin
    have hd : ∀ values, d ≠ .data values := by
      rintro values rfl
      have := hapart front values hfollows
      omega
    obtain ⟨back, hds⟩ := hfollows
    rw [Array.getElem?_append_left (by rwa [hsize]), List.getElem?_toArray, List.getElem?_map, hds,
      getElem?_layout _ _ _ hi, place_word hd hi]
  · rw [Array.getElem?_append_right (by omega), hsize, Array.getElem?_replicate, if_pos (by omega)]

/-- A stream without a defect that fits the memory is assembled. Its labels, instructions, constants and
data lie at the sums of the sizes in front of them, and the rest of the memory is zero. -/
theorem assemble_lays_out (hclosed : Defect.find ds = none) (hfits : totalSize ds ≤ memory)
    (hmemory : memory < 4294967296) :
    ∃ image, Image.assemble ds memory = .ok image ∧ image.LaysOut ds memory := by
  obtain ⟨image, himage⟩ : ∃ image, Image.assemble ds memory = .ok image := by
    rw [Image.assemble, hclosed]
    exact ⟨_, if_neg (Nat.not_lt.2 hfits)⟩
  have hplaced := placed_of_assemble himage (by omega)
  -- no address of the stream wraps around
  have hexact {front : List Directive} {d : Directive} (h : Follows ds front d) :
      (UInt32.ofNat (totalSize front + d.size)).toNat = totalSize front + d.size :=
    UInt32.toNat_ofNat_of_lt' ((h.size_le.trans hfits).trans_lt hmemory)
  have hlabel (front : List Directive) (name : String) (h : Follows ds front (.label name)) :
      ∃ a, image.label? name = some a ∧ a.toNat = totalSize front :=
    ⟨_, hplaced.holds h, hexact h⟩
  refine ⟨image, himage, size_memory_of_assemble himage, hlabel, ?_, ?_, ?_,
    fun a => memory_rest himage⟩
  · exact fun front i h => ⟨_, (hplaced.holds h).2, hexact h⟩
  · exact fun front r v h => ⟨_, (hplaced.holds h).2, hexact h⟩
  · intro front before v after h
    have hreferences : ∀ name ∈ v.references, name ∈ Assembly.references ds := by
      obtain ⟨back, rfl⟩ := h
      intro name hname
      simp [Assembly.Directive.references, hname]
    refine ⟨_, stands_valueWords hclosed hlabel hreferences, length_valueWords v, fun i w hw => ?_⟩
    have hbefore : (before.flatMap (Image.valueWords image.labels)).length =
        Number.total Value.size before := length_flatMap_valueWords before
    rw [Nat.add_assoc, ← hbefore]
    refine hplaced.holds h _ w ?_
    rw [List.flatMap_append, List.getElem?_append_right (Nat.le_add_right _ _),
      Nat.add_sub_cancel_left, List.flatMap_cons,
      List.getElem?_append_left (List.getElem?_eq_some_iff.1 hw).1, hw]

/-- A stream with a reference forward and one back: the label `text` stands behind six words. -/
theorem assemble_lays_out_references :
    let ds : List Directive :=
      [.label "start", .constant ⟨1⟩ (.reference "text"), .instruction (.ofList .add [⟨1⟩, ⟨1⟩]),
        .instruction (.ofList .load [⟨0⟩, ⟨1⟩]), .instruction (.ofList .halt []), .label "text",
        .data [.text "hé", .reference "start"]]
    Defect.find ds = none ∧ totalSize ds ≤ 64 ∧
      ∃ image, Image.assemble ds 64 = .ok image ∧ image.LaysOut ds 64 := by
  intro ds
  have hclosed : Defect.find ds = none := by decide +kernel
  have hfits : totalSize ds ≤ 64 := by decide +kernel
  exact ⟨hclosed, hfits, assemble_lays_out hclosed hfits (by decide)⟩

end Laying

/-- What directives give back that are run from a label on, in a memory of 256 words. -/
def givenBack (start : String) (ds : List Directive) : Option Word :=
  match Image.assemble ds 256 with
  | .ok image =>
    match run image { start, steps := 128 } with
    | .ok halted => some halted.result
    | .error _ => none
  | .error _ => none

end Qll.Machine
