import Mathlib.Tactic.Common
import Qll.Assembly.Directive

/-!
# Labels and references of a stream

The labels a stream defines and the labels it refers to, and what the search for defects says of
them: no label is reported twice when the labels are distinct, and none is reported as undefined
when every reference is a label of the stream.
-/

namespace Qll.Assembly

/-- The label a value refers to. -/
def Value.references : Value → List String
  | .reference label => [label]
  | _ => []

/-- The labels a directive refers to. -/
def Directive.references : Directive → List String
  | .constant _ value => value.references
  | .data values => values.flatMap Value.references
  | _ => []

/-- The labels a stream refers to, in order. -/
def references (ds : List Directive) : List String := ds.flatMap Directive.references

section Streams

variable (ds es : List Directive)

/-- No directives have no labels. -/
@[simp] theorem labels_nil : labels [] = [] := rfl

/-- No directives have no references. -/
@[simp] theorem references_nil : references [] = [] := rfl

/-- The labels of two streams in a row. -/
@[simp] theorem labels_append : labels (ds ++ es) = labels ds ++ labels es := by simp [labels]

/-- The references of two streams in a row. -/
@[simp] theorem references_append : references (ds ++ es) = references ds ++ references es := by
  simp [references]

/-- A label is one of those of its stream. -/
@[simp] theorem labels_label (l : String) : labels (.label l :: ds) = l :: labels ds := rfl

/-- Instructions have no labels. -/
@[simp] theorem labels_instruction (i : Instruction) :
    labels (.instruction i :: ds) = labels ds := rfl

/-- Constants have no labels. -/
@[simp] theorem labels_constant (d : Machine.Register) (v : Value) :
    labels (.constant d v :: ds) = labels ds := rfl

/-- Data has no labels. -/
@[simp] theorem labels_data (vs : List Value) : labels (.data vs :: ds) = labels ds := rfl

/-- The references of a directive come first. -/
@[simp] theorem references_cons (d : Directive) :
    references (d :: ds) = d.references ++ references ds := rfl

/-- Labels refer to nothing. -/
@[simp] theorem references_label (l : String) : (Directive.label l).references = [] := rfl

/-- Instructions refer to nothing. -/
@[simp] theorem references_instruction (i : Instruction) :
    (Directive.instruction i).references = [] := rfl

/-- A constant that is a word refers to nothing. -/
@[simp] theorem references_immediate (d : Machine.Register) (w : Machine.Word) :
    (Directive.constant d (.immediate w)).references = [] := rfl

/-- A constant that is an address refers to its label. -/
@[simp] theorem references_reference (d : Machine.Register) (l : String) :
    (Directive.constant d (.reference l)).references = [l] := rfl

end Streams

namespace Defect

/-- A value that refers to defined labels only has no undefined one. -/
theorem findUndefined_eq_none {defined : List String} {position : Nat} {values : List Value}
    (h : ∀ l ∈ values.flatMap Value.references, l ∈ defined) :
    findUndefined defined position values = none := by
  rw [findUndefined, List.findSome?_eq_none_iff]
  intro v hv
  cases v with
  | immediate w => rfl
  | text s => rfl
  | reference l =>
    have hl : l ∈ defined := h l (List.mem_flatMap.2 ⟨_, hv, List.mem_singleton_self l⟩)
    simp [hl]

/-- A directive that refers to defined labels only is never reported for an undefined one. -/
theorem ofDirective_ne_undefined {defined : List String} {position p : Nat} {d : Directive}
    {l : String} (h : ∀ x ∈ d.references, x ∈ defined) :
    ofDirective defined position d ≠ some (undefinedLabel p l) := by
  cases d with
  | label l => simp [ofDirective]
  | data vs => simp [ofDirective, findUndefined_eq_none h]
  | instruction i =>
    simp only [ofDirective]
    split <;> simp
  | constant r v =>
    have hv : findUndefined defined position [v] = none :=
      findUndefined_eq_none (by rw [List.flatMap_singleton]; exact h)
    simp only [ofDirective, hv]
    split <;> simp

/-- A stream that refers to defined labels only is never reported for an undefined one. -/
theorem findOwn_ne_undefined {defined : List String} {ds : List Directive} {position p : Nat}
    {l : String} (h : ∀ x ∈ references ds, x ∈ defined) :
    findOwn defined ds position ≠ some (undefinedLabel p l) := by
  induction ds generalizing position with
  | nil => simp [findOwn]
  | cons d ds ih =>
    simp only [references_cons, List.mem_append] at h
    have hd : ofDirective defined position d ≠ some (undefinedLabel p l) :=
      ofDirective_ne_undefined fun x hx => h x (.inl hx)
    rw [findOwn]
    split
    · next defect hdefect => exact fun heq => hd (hdefect.trans heq)
    · exact ih fun x hx => h x (.inr hx)

/-- Repeated labels are the only ones that the search for them reports. -/
theorem findTwice_ne_undefined {ds : List Directive} {seen : List (String × Nat)} {position p : Nat}
    {l : String} : findTwice ds position seen ≠ some (undefinedLabel p l) := by
  induction ds generalizing seen position with
  | nil => simp [findTwice]
  | cons d ds ih =>
    cases d with
    | label name =>
      rw [findTwice]
      split
      · simp
      · exact ih
    | data vs => exact ih
    | instruction i => exact ih
    | constant d v => exact ih

/-- A stream whose references are all labels of the stream is not reported for an undefined one. -/
theorem find_ne_undefined {ds : List Directive} {p : Nat} {l : String}
    (h : ∀ x ∈ references ds, x ∈ labels ds) : find ds ≠ some (undefinedLabel p l) := by
  unfold find
  split
  · next defect hdefect => exact fun heq => findTwice_ne_undefined (hdefect.trans heq)
  · exact findOwn_ne_undefined h

/-! ## Streams without a defect -/

/-- Values without an undefined label refer to defined ones only. -/
theorem mem_of_findUndefined {defined : List String} {position : Nat} {values : List Value}
    (h : findUndefined defined position values = none) {l : String}
    (hl : l ∈ values.flatMap Value.references) : l ∈ defined := by
  rw [findUndefined, List.findSome?_eq_none_iff] at h
  obtain ⟨v, hv, hlv⟩ := List.mem_flatMap.1 hl
  cases v with
  | immediate w => cases hlv
  | text s => cases hlv
  | reference name =>
    rw [List.mem_singleton.1 hlv]
    simpa using h _ hv

/-- A directive without a defect of its own refers to defined labels only. -/
theorem mem_of_ofDirective {defined : List String} {position : Nat} {d : Directive}
    (h : ofDirective defined position d = none) {l : String} (hl : l ∈ d.references) : l ∈ defined := by
  cases d with
  | label name => cases hl
  | instruction i => cases hl
  | data values => exact mem_of_findUndefined h hl
  | constant r v =>
    simp only [ofDirective] at h
    split at h
    · cases h
    · exact mem_of_findUndefined h (by rwa [List.flatMap_singleton])

/-- Directives without a defect of their own refer to defined labels only. -/
theorem mem_of_findOwn {defined : List String} {ds : List Directive} {position : Nat}
    (h : findOwn defined ds position = none) {l : String} (hl : l ∈ references ds) : l ∈ defined := by
  induction ds generalizing position with
  | nil => cases hl
  | cons d ds ih =>
    rw [findOwn] at h
    split at h
    · cases h
    · next hd =>
      rw [references_cons, List.mem_append] at hl
      obtain hl | hl := hl
      · exact mem_of_ofDirective hd hl
      · exact ih h hl

/-- A stream without a defect defines the labels that it refers to. -/
theorem mem_labels_of_find {ds : List Directive} (h : find ds = none) {l : String}
    (hl : l ∈ references ds) : l ∈ labels ds := by
  unfold find at h
  split at h
  · cases h
  · exact mem_of_findOwn h hl

end Defect

end Qll.Assembly
