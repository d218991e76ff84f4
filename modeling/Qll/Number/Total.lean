/-!
# Totals

The total of a measure over a list is the sum of the measures of its items. The total of two lists
in a row is the sum of their totals, so that positions in a sequence of measured items are totals
of what stands in front.
-/

namespace Qll.Number

/-- The sum of a measure over the items of a list. -/
def total {α : Type} (measure : α → Nat) (items : List α) : Nat :=
  items.foldr (fun a n => measure a + n) 0

/-- Nothing measures zero. -/
@[simp]
theorem total_nil {α : Type} (measure : α → Nat) : total measure [] = 0 := rfl

/-- The first item adds its measure. -/
@[simp]
theorem total_cons {α : Type} (measure : α → Nat) (a : α) (items : List α) :
    total measure (a :: items) = measure a + total measure items := rfl

/-- The total of two lists in a row. -/
@[simp]
theorem total_append {α : Type} (measure : α → Nat) (front back : List α) :
    total measure (front ++ back) = total measure front + total measure back := by
  induction front with
  | nil => simp
  | cons a front ih => simp [ih, Nat.add_assoc]

end Qll.Number
