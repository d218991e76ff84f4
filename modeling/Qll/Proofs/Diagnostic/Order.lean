import Mathlib.Data.Int.ConditionallyCompleteOrder
import Mathlib.Data.List.Pairwise
import Mathlib.Data.Prod.Lex
import Mathlib.Data.String.Basic
import Mathlib.Order.ConditionallyCompleteLattice.Basic
import Mathlib.Order.WithBot
import Mathlib.Tactic.Common
import Qll.Diagnostic.Bag

/-!
# The canonical order of diagnostics

The comparison of two diagnostics looks at their locations, then at their severities, then at their
codes, each with a test of its own. All of it is one linear order on the sort keys of diagnostics: a
missing location below every other, locations by file, line and column, severities upside down and
codes by number. What is said about sorting follows from this order.
-/

namespace Qll.Source.Location

open Prod.Lex (toLex_lt_toLex)

/-- A location in the order of files, lines and columns. -/
def sortKey (l : Location) : String ×ₗ ℤ ×ₗ ℤ := toLex (l.file, toLex (l.line, l.column))

/-- Locations with the same sort key are the same. -/
theorem sortKey_injective : Function.Injective sortKey := by
  rintro ⟨f, l, c⟩ ⟨f', l', c'⟩ h
  simpa [sortKey] using h

/-- A location is before another one if its sort key is below the other's. -/
theorem before_iff (a b : Location) : a.before b ↔ a.sortKey < b.sortKey := by
  unfold before sortKey
  rw [toLex_lt_toLex, toLex_lt_toLex]
  split <;> rename_i file
  · simp [file]
  · rw [not_not] at file
    split <;> rename_i line <;> simp_all

/-- A location that may be missing, in the order of files, lines and columns with the missing one at
the bottom. -/
def optionSortKey : Option Location → WithBot (String ×ₗ ℤ ×ₗ ℤ)
  | none => ⊥
  | some l => l.sortKey

/-- Locations with the same sort key are the same, missing ones included. -/
theorem optionSortKey_injective : Function.Injective optionSortKey := by
  rintro (_ | a) (_ | b) h
  · rfl
  · exact absurd h.symm WithBot.coe_ne_bot
  · exact absurd h WithBot.coe_ne_bot
  · rw [sortKey_injective (WithBot.coe_injective h)]

/-- The comparison of locations that may be missing is that of their sort keys. -/
theorem optionBefore_iff (a b : Option Location) :
    optionBefore a b ↔ optionSortKey a < optionSortKey b := by
  cases a <;> cases b <;> simp [optionBefore, optionSortKey, before_iff]

end Qll.Source.Location

namespace Qll.Diagnostic

open Source (Location)
open Prod.Lex (toLex_lt_toLex)

/-! ## Sort keys -/

/-- Where a diagnostic belongs: by its location, a missing one first, then the severer first, then
the smaller code first. -/
def sortKey (d : Diagnostic) : WithBot (String ×ₗ ℤ ×ₗ ℤ) ×ₗ ℕᵒᵈ ×ₗ ℕ :=
  toLex (Location.optionSortKey d.location,
    toLex (OrderDual.toDual d.severity.rank, d.code.number))

/-- Two diagnostics agree in all that the canonical order looks at. -/
def Agree (x y : Diagnostic) : Prop :=
  x.location = y.location ∧ x.severity = y.severity ∧ x.code = y.code

instance (x y : Diagnostic) : Decidable (Agree x y) := by
  unfold Agree; infer_instance

/-- Agreement goes both ways. -/
theorem Agree.symm {x y : Diagnostic} (h : Agree x y) : Agree y x :=
  ⟨h.1.symm, h.2.1.symm, h.2.2.symm⟩

/-- Two diagnostics have the same sort key if they agree, and only then. -/
theorem sortKey_eq_iff {x y : Diagnostic} : x.sortKey = y.sortKey ↔ Agree x y := by
  constructor
  · intro h
    obtain ⟨location, severity, code⟩ :
        Location.optionSortKey x.location = Location.optionSortKey y.location ∧
          x.severity.rank = y.severity.rank ∧ x.code.number = y.code.number := by
      simpa [sortKey] using h
    exact ⟨Location.optionSortKey_injective location, congrArg Severity.mk severity,
      congrArg Code.mk code⟩
  · rintro ⟨location, severity, code⟩
    rw [sortKey, sortKey, location, severity, code]

/-- The comparison is the linear order of the sort keys. -/
theorem before_iff (x y : Diagnostic) : x.before y ↔ x.sortKey < y.sortKey := by
  unfold before sortKey
  rw [toLex_lt_toLex, toLex_lt_toLex]
  by_cases location : x.location = y.location
  · rw [if_neg (not_not_intro location), location]
    by_cases severity : x.severity = y.severity
    · simp [severity]
    · have apart : x.severity.rank ≠ y.severity.rank := fun h => severity (congrArg Severity.mk h)
      simp [severity, apart]
  · have apart : Location.optionSortKey x.location ≠ Location.optionSortKey y.location :=
      Location.optionSortKey_injective.ne location
    simp [location, apart, Location.optionBefore_iff]

/-- Sorting compares sort keys. -/
theorem not_before_iff (x y : Diagnostic) : !(y.before x) ↔ x.sortKey ≤ y.sortKey := by
  rw [Bool.not_eq_true', ← not_iff_not, Bool.not_eq_false, not_le, before_iff]

/-- The comparison is a strict order, up to diagnostics that agree. -/
theorem isStrictWeakOrder_before :
    IsStrictWeakOrder Diagnostic fun x y => x.before y = true where
  irrefl x := by simp [before_iff]
  trans x y z := by
    simp only [before_iff]
    exact lt_trans
  incomp_trans x y z := by
    simp only [before_iff, not_lt]
    exact fun h h' => ⟨h'.1.trans h.1, h.2.trans h'.2⟩

/-! ## Sorting -/

/-- Sorting a bag is sorting its diagnostics by their sort keys. -/
theorem items_sort (b : Bag) :
    b.sort.items = b.items.mergeSort fun x y => decide (x.sortKey ≤ y.sortKey) := by
  change b.items.mergeSort (fun x y => !y.before x) = _
  congr 1
  funext x y
  rw [Bool.eq_iff_iff, not_before_iff, decide_eq_true_eq]

/-- Sort keys are compared transitively. -/
theorem sortKey_trans (x y z : Diagnostic) (h : decide (x.sortKey ≤ y.sortKey))
    (h' : decide (y.sortKey ≤ z.sortKey)) : decide (x.sortKey ≤ z.sortKey) :=
  decide_eq_true (le_trans (of_decide_eq_true h) (of_decide_eq_true h'))

/-- Of two sort keys one is at most the other. -/
theorem sortKey_total (x y : Diagnostic) :
    decide (x.sortKey ≤ y.sortKey) || decide (y.sortKey ≤ x.sortKey) := by
  rw [Bool.or_eq_true, decide_eq_true_eq, decide_eq_true_eq]
  exact le_total ..

/-- A sorted bag has its diagnostics in the order of their sort keys. -/
theorem pairwise_sort (b : Bag) : b.sort.items.Pairwise fun x y => x.sortKey ≤ y.sortKey := by
  rw [items_sort]
  exact (List.pairwise_mergeSort sortKey_trans sortKey_total b.items).imp of_decide_eq_true

/-- Sorting neither drops nor adds a diagnostic. -/
theorem perm_sort (b : Bag) : b.sort.items.Perm b.items := List.mergeSort_perm ..

/-- What is in order is left as it is. -/
theorem sort_of_pairwise {b : Bag} (h : b.items.Pairwise fun x y => x.sortKey ≤ y.sortKey) :
    b.sort = b := by
  have hitems : b.sort.items = b.items := by
    rw [items_sort]
    exact List.mergeSort_of_pairwise (h.imp decide_eq_true)
  cases b
  exact congrArg (Bag.mk · _) hitems

/-- Items that agree keep the order of their arrival. -/
theorem filter_sort (b : Bag) (d : Diagnostic) :
    b.sort.items.filter (Agree d ·) = b.items.filter (Agree d ·) := by
  have hkeys : (b.items.filter (Agree d ·)).Pairwise fun x y => decide (x.sortKey ≤ y.sortKey) := by
    refine List.pairwise_of_forall_mem_list fun x hx y hy => decide_eq_true (le_of_eq ?_)
    have hx : Agree d x := by simpa using (List.mem_filter.1 hx).2
    have hy : Agree d y := by simpa using (List.mem_filter.1 hy).2
    exact (sortKey_eq_iff.2 hx).symm.trans (sortKey_eq_iff.2 hy)
  have hstays : (b.items.filter (Agree d ·)).Sublist b.sort.items := by
    rw [items_sort]
    exact List.sublist_mergeSort sortKey_trans sortKey_total hkeys List.filter_sublist
  have hagain := hstays.filter (Agree d ·)
  simp only [List.filter_filter, Bool.and_self] at hagain
  exact (hagain.eq_of_length ((perm_sort b).filter _).length_eq.symm).symm

/-- Sorting is canonical: it permutes the items into the order of their sort keys, items that agree in
location, severity and code stay in the order of their arrival, and a sorted bag stays as it is. The
comparison is a strict weak order, and where no two items agree the order of their arrival does not
matter. -/
theorem sort_canonical :
    (∀ b : Bag, b.sort.items.Perm b.items ∧
      b.sort.items.Pairwise (fun x y => x.sortKey ≤ y.sortKey) ∧
      (∀ d : Diagnostic, b.sort.items.filter (Agree d ·) = b.items.filter (Agree d ·)) ∧
      b.sort.sort = b.sort) ∧
    (∀ x y : Diagnostic, x.before y ↔ x.sortKey < y.sortKey) ∧
    IsStrictWeakOrder Diagnostic (fun x y => x.before y = true) ∧
    ∀ a b : Bag, a.items.Perm b.items → a.items.Pairwise (fun x y => ¬ Agree x y) →
      a.sort.items = b.sort.items := by
  refine ⟨fun b => ⟨perm_sort b, pairwise_sort b, filter_sort b, sort_of_pairwise (pairwise_sort b)⟩,
    before_iff, isStrictWeakOrder_before, fun a b hperm hapart => ?_⟩
  refine List.Perm.eq_of_pairwise ?_ (pairwise_sort a) (pairwise_sort b)
    ((perm_sort a).trans (hperm.trans (perm_sort b).symm))
  intro x y hx hy hxy hyx
  have hagree : Agree x y := sortKey_eq_iff.1 (le_antisymm hxy hyx)
  have hx : x ∈ a.items := (perm_sort a).mem_iff.1 hx
  have hy : y ∈ a.items := hperm.mem_iff.2 ((perm_sort b).mem_iff.1 hy)
  by_contra hne
  have : Std.Symm fun x y => ¬ Agree x y := ⟨fun _ _ h h' => h h'.symm⟩
  exact hapart.forall hx hy hne hagree

/-- Four reports that arrive in two orders. -/
def fourReports : Bag :=
  { items := [
      { severity := .warning, code := .mismatch, location := some ⟨"b.qll", 1, 1⟩, message := "b" },
      { severity := .warning, code := .mismatch, location := some ⟨"a.qll", 9, 1⟩, message := "a" },
      { severity := .error, code := .unknownType, location := some ⟨"a.qll", 9, 1⟩, message := "a" },
      { severity := .info, code := .mismatch, location := none, message := "" }]
    cap := 10 }

/-- Four reports and the same four from the last to the first are sorted alike. -/
theorem sort_canonical_fourReports :
    (fourReports.items.Perm fourReports.items.reverse ∧
      fourReports.items.Pairwise fun x y => ¬ Agree x y) ∧
    fourReports.sort.items = { fourReports with items := fourReports.items.reverse }.sort.items :=
  have hperm : fourReports.items.Perm fourReports.items.reverse := by decide
  have hapart : fourReports.items.Pairwise fun x y => ¬ Agree x y := by decide
  ⟨⟨hperm, hapart⟩, sort_canonical.2.2.2 _ _ hperm hapart⟩

end Qll.Diagnostic
