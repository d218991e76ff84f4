import Mathlib.Data.List.FinRange
import Mathlib.Data.List.Perm.Subperm
import Mathlib.Logic.Function.Basic
import Mathlib.Tactic.Common
import Qll.Diagnostic.Bag

/-!
# What bags keep

Bags are added to, merged with each other and sorted. Each of these leaves a bag with all that it
held, and with a cap between one and the largest one that only a merge can be over. Reports that are
forwarded into a bag are the first ones of their key; the key takes a missing location for the place
at line zero of a nameless file, so it tells apart all but these two.
-/

namespace Qll.Diagnostic

open Source (Location)

/-! ## Histories of bags -/

namespace Bag

/-- What is done with a family of bags. -/
inductive Action (ι : Type)
  | add (i : ι) (d : Diagnostic)
  | merge (i other : ι)
  | sort (i : ι)

/-- The cap is positive and at most the largest, and a bag that holds more than its cap has the
largest one. -/
structure Bounded (b : Bag) : Prop where
  pos : 0 < b.cap
  le : b.cap ≤ maxCap
  size : min b.size maxCap ≤ b.cap

/-- An empty bag is within its bounds. -/
theorem bounded_empty (cap : Int) : Bounded (.empty cap) := by
  constructor
  all_goals
    simp only [empty, size, List.length_nil, maxCap]
    split <;> omega

/-- Sorting neither loses nor adds diagnostics. -/
@[simp] theorem size_sort (b : Bag) : b.sort.size = b.size :=
  (List.mergeSort_perm ..).length_eq

/-- The capacity stays when a diagnostic is added. -/
@[simp] theorem cap_add (b : Bag) (d : Diagnostic) : (b.add d).cap = b.cap := by
  unfold add
  split <;> rfl

/-- Adding a diagnostic makes a bag one larger unless it is full. -/
theorem size_add (b : Bag) (d : Diagnostic) :
    (b.add d).size = if b.size < b.cap then b.size + 1 else b.size := by
  unfold add hasRoom
  by_cases h : b.size < b.cap
  · rw [if_pos (decide_eq_true h), if_pos h]
    simp [size]
  · rw [if_neg (by simpa using h), if_neg h]

/-- The sizes of merged bags add up. -/
@[simp] theorem size_merge (b other : Bag) : (b.merge other).size = b.size + other.size := by
  simp [merge, size]

variable {ι : Type}

/-- What an action on some bags makes of one of them. -/
inductive Change (bags : ι → Bag) (i : ι) : Action ι → Bag → Prop
  | other (a : Action ι) : Change bags i a (bags i)
  | add (d : Diagnostic) : Change bags i (.add i d) ((bags i).add d)
  | merge (other : ι) : Change bags i (.merge i other) ((bags i).merge (bags other))
  | sort : Change bags i (.sort i) (bags i).sort

namespace Change

variable {bags : ι → Bag} {i : ι} {a : Action ι} {b : Bag}

/-- What happens to a bag keeps its bounds. -/
theorem bounded (h : Change bags i a b) (hb : Bounded (bags i)) : Bounded b := by
  have ⟨hpos, hle, hsize⟩ := hb
  cases h with
  | other => exact hb
  | add d =>
    refine ⟨by rwa [cap_add], by rwa [cap_add], ?_⟩
    rw [cap_add, size_add]
    split <;> omega
  | merge other =>
    have hcap : ((bags i).merge (bags other)).cap =
        if (bags i).cap < (bags i).size + (bags other).size
        then min ((bags i).size + (bags other).size) maxCap else (bags i).cap := rfl
    have hmax : 0 < maxCap := by decide
    refine ⟨?_, ?_, ?_⟩
    · rw [hcap]
      split <;> omega
    · rw [hcap]
      split <;> omega
    · rw [hcap, size_merge]
      split <;> omega
  | sort => exact ⟨hpos, hle, by rwa [size_sort]⟩

/-- Whatever a bag held it holds afterwards. -/
theorem keeps (h : Change bags i a b) : (bags i).items.Subperm b.items := by
  cases h with
  | other => exact .refl _
  | add d =>
    unfold Bag.add
    split
    · exact (List.sublist_append_left _ _).subperm
    · exact .refl _
  | merge other => exact (List.sublist_append_left _ _).subperm
  | sort => exact (List.mergeSort_perm ..).symm.subperm

/-- Only a merge takes a bag over the largest cap. -/
theorem size_le (h : Change bags i a b) (hb : Bounded (bags i)) :
    b.size ≤ max (bags i).size maxCap ∨
      ∃ other, a = .merge i other ∧ maxCap < (bags i).size + (bags other).size := by
  have hle := hb.le
  cases h with
  | other => exact .inl (le_max_left ..)
  | add d =>
    rw [size_add]
    split <;> omega
  | merge other =>
    rw [size_merge]
    obtain hover | hfits := Nat.lt_or_ge maxCap ((bags i).size + (bags other).size)
    · exact .inr ⟨other, rfl, hover⟩
    · exact .inl (hfits.trans (le_max_right ..))
  | sort =>
    rw [size_sort]
    exact .inl (le_max_left ..)

end Change

variable [DecidableEq ι]

/-- The bags after an action. -/
def act (bags : ι → Bag) : Action ι → ι → Bag
  | .add i d => Function.update bags i ((bags i).add d)
  | .merge i other => Function.update bags i ((bags i).merge (bags other))
  | .sort i => Function.update bags i (bags i).sort

/-- What becomes of empty bags with the given caps. -/
def history (caps : ι → Int) (actions : List (Action ι)) : ι → Bag :=
  actions.foldl act fun i => .empty (caps i)

/-- An action does to each bag one of the things that may happen to a bag. -/
theorem change_act (bags : ι → Bag) (a : Action ι) (i : ι) : Change bags i a (act bags a i) := by
  cases a with
  | add k d =>
    obtain rfl | hk := eq_or_ne i k
    · rw [act, Function.update_self]
      exact .add d
    · rw [act, Function.update_of_ne hk]
      exact .other _
  | merge k other =>
    obtain rfl | hk := eq_or_ne i k
    · rw [act, Function.update_self]
      exact .merge other
    · rw [act, Function.update_of_ne hk]
      exact .other _
  | sort k =>
    obtain rfl | hk := eq_or_ne i k
    · rw [act, Function.update_self]
      exact .sort
    · rw [act, Function.update_of_ne hk]
      exact .other _

/-- Whatever is done to some bags, each stays within its bounds. -/
theorem bounded_history (caps : ι → Int) (actions : List (Action ι)) (i : ι) :
    Bounded (history caps actions i) := by
  suffices h : ∀ bags : ι → Bag, (∀ i, Bounded (bags i)) → Bounded (actions.foldl act bags i) from
    h _ fun i => bounded_empty (caps i)
  intro bags hbags
  induction actions generalizing bags with
  | nil => exact hbags i
  | cons a actions ih => exact ih _ fun k => (change_act bags a k).bounded (hbags k)

/-- What a bag holds is not lost by what is done to it later. -/
theorem keeps_foldl (actions : List (Action ι)) (bags : ι → Bag) (i : ι) :
    (bags i).items.Subperm (actions.foldl act bags i).items := by
  induction actions generalizing bags with
  | nil => exact .refl _
  | cons a actions ih => exact (change_act bags a i).keeps.trans (ih (act bags a))

/-- There is room exactly if another diagnostic would be the last of the bag. -/
theorem hasRoom_iff (b : Bag) (d : Diagnostic) :
    b.hasRoom = true ↔ (b.add d).items = b.items ++ [d] := by
  unfold add
  split
  next h => simp [h]
  next h => simp [h]

/-- There is no room exactly if another diagnostic would change nothing. -/
theorem hasRoom_eq_false_iff (b : Bag) (d : Diagnostic) : b.hasRoom = false ↔ b.add d = b := by
  cases hroom : b.hasRoom with
  | true =>
    have hstored := (hasRoom_iff b d).1 hroom
    refine iff_of_false nofun fun h => ?_
    rw [h] at hstored
    simp at hstored
  | false => simp [add, hroom]

/-- Whatever is done with some bags, none holds more than its cap, unless a merge brought more than
the largest cap together; then all of it stays, and the cap is the largest one. Adding answers
whether the diagnostic was stored, and what is stored is never lost. -/
theorem history_bounded (caps : ι → Int) (actions : List (Action ι)) (i : ι) :
    let bags := history caps actions
    ((bags i).size ≤ (bags i).cap ∨ maxCap < (bags i).size ∧ (bags i).cap = maxCap) ∧
    (0 < (bags i).cap ∧ (bags i).cap ≤ maxCap) ∧
    (∀ a, (act bags a i).size ≤ max (bags i).size maxCap ∨
      ∃ other, a = .merge i other ∧ maxCap < (bags i).size + (bags other).size) ∧
    (∀ d, ((bags i).hasRoom = true ↔ (act bags (.add i d) i).items = (bags i).items ++ [d]) ∧
      ((bags i).hasRoom = false ↔ act bags (.add i d) = bags)) ∧
    ∀ later, (bags i).items.Subperm (history caps (actions ++ later) i).items := by
  intro bags
  have hbounded : ∀ i, Bounded (bags i) := bounded_history caps actions
  obtain ⟨hpos, hle, hsize⟩ := hbounded i
  refine ⟨?_, ⟨hpos, hle⟩, fun a => (change_act bags a i).size_le (hbounded i), fun d => ⟨?_, ?_⟩, fun later => ?_⟩
  · obtain hover | hfits := Nat.lt_or_ge maxCap (bags i).size
    · exact .inr ⟨hover, by omega⟩
    · exact .inl (by omega)
  · rw [act, Function.update_self]
    exact hasRoom_iff ..
  · rw [act, Function.update_eq_self_iff]
    exact hasRoom_eq_false_iff ..
  · rw [history, List.foldl_append]
    exact keeps_foldl later bags i

/-- Merging one bag into another again and again. -/
theorem size_merges {bags : ι → Bag} {i other : ι} (hne : other ≠ i) (n : Nat) :
    ((List.replicate n (Action.merge i other)).foldl act bags i).size =
      (bags i).size + n * (bags other).size := by
  induction n generalizing bags with
  | zero => simp
  | succ n ih =>
    rw [List.replicate_succ, List.foldl_cons, ih, act, Function.update_self, size_merge,
      Function.update_of_ne hne, Nat.succ_mul]
    omega

/-- A bag with one diagnostic is merged into another until that one is over every cap. -/
def manyMerges : List (Action Bool) :=
  .add true default :: List.replicate 65536 (.merge false true)

/-- Merging may fill a bag beyond its cap. -/
theorem merged_over_cap :
    ¬ (history (fun _ => 0) manyMerges false).size ≤ (history (fun _ => 0) manyMerges false).cap := by
  have hsize : (history (fun _ => 0) manyMerges false).size = 65536 := by
    rw [history, manyMerges, List.foldl_cons, size_merges (by decide)]
    rfl
  have hle : (history (fun _ => 0) manyMerges false).cap ≤ 65535 :=
    (bounded_history (fun _ => 0) manyMerges false).le
  omega

end Bag

/-! ## Repeated reports -/

/-- Two reports count as one: they have the same code, severity and message, and the same location,
where a missing location is the same as line zero of a nameless file. -/
def Alike (x y : Diagnostic) : Prop :=
  x.code = y.code ∧ x.severity = y.severity ∧ x.message = y.message ∧
    (x.location = y.location ∨ x.location = none ∧ y.location = some nowhere ∨
      x.location = some nowhere ∧ y.location = none)

/-- Two reports have the same code, severity, location and message. -/
def Same (x y : Diagnostic) : Prop :=
  x.code = y.code ∧ x.severity = y.severity ∧ x.location = y.location ∧ x.message = y.message

instance (x y : Diagnostic) : Decidable (Alike x y) :=
  inferInstanceAs (Decidable (_ ∧ _))

instance (x y : Diagnostic) : Decidable (Same x y) :=
  inferInstanceAs (Decidable (_ ∧ _))

/-- Apart from the place that stands for none, diagnostics are alike if they are the same. -/
theorem alike_iff_same {x y : Diagnostic} (hx : x.location ≠ some nowhere)
    (hy : y.location ≠ some nowhere) : Alike x y ↔ Same x y := by
  unfold Alike Same
  tauto

/-- When two locations are equal once a missing one is taken for the place that stands for none. -/
theorem getD_nowhere_eq_iff (a b : Option Location) : a.getD nowhere = b.getD nowhere ↔
    a = b ∨ a = none ∧ b = some nowhere ∨ a = some nowhere ∧ b = none := by
  cases a <;> cases b <;> simp [eq_comm]

/-- Two diagnostics have one key if they are alike, and only then. -/
theorem key_eq_iff (x y : Diagnostic) : x.key = y.key ↔ Alike x y := by
  rw [key, key, Key.mk.injEq, getD_nowhere_eq_iff, Alike]
  tauto

namespace Seen

/-- A diagnostic is passed on unless its key was seen. -/
theorem report_eq (s : Seen) (d : Diagnostic) : (s.report d).1 = decide (d.key ∉ s.keys) := by
  unfold report
  by_cases h : d.key ∈ s.keys <;> simp [h]

/-- The keys seen are those seen before and that of the diagnostic. -/
theorem mem_keys_report (s : Seen) (d : Diagnostic) (k : Key) :
    k ∈ (s.report d).2.keys ↔ k = d.key ∨ k ∈ s.keys := by
  unfold report
  by_cases h : d.key ∈ s.keys
  · simp only [List.contains_iff_mem.2 h, if_true]
    exact ⟨.inr, fun hk => hk.elim (fun hk => hk ▸ h) id⟩
  · simp [h]

/-- What is passed on of a sequence starts with its first diagnostic, if that is passed on. -/
theorem forward_cons (s : Seen) (d : Diagnostic) (rest : List Diagnostic) :
    (s.forward (d :: rest)).1 =
      if (s.report d).1 then d :: ((s.report d).2.forward rest).1
      else ((s.report d).2.forward rest).1 := rfl

/-- What is forwarded when some keys were reported before. -/
theorem forward_eq (s : Seen) (ds : List Diagnostic) :
    (s.forward ds).1 = ((List.finRange ds.length).filter fun i =>
      ds[i].key ∉ s.keys ∧ ∀ j < i, ¬ Alike ds[j] ds[i]).map fun i => ds[i] := by
  induction ds generalizing s with
  | nil => rfl
  | cons d rest ih =>
    -- a later report has a new key behind `d` exactly if it had one before and is not like `d`
    have hlater (i : Fin rest.length) :
        (rest[i].key ∉ s.keys ∧ ∀ j < i.succ, ¬ Alike (d :: rest)[j] rest[i]) ↔
          rest[i].key ∉ (s.report d).2.keys ∧ ∀ j < i, ¬ Alike rest[j] rest[i] := by
      have hfirst : ¬ Alike d rest[i] ↔ rest[i].key ≠ d.key := by rw [← key_eq_iff, ne_comm]
      simp only [Fin.forall_fin_succ, Fin.succ_pos, Fin.succ_lt_succ_iff, forall_const,
        mem_keys_report, not_or]
      change (_ ∧ ¬ Alike d rest[i] ∧ ∀ j < i, ¬ Alike rest[j] rest[i]) ↔ _
      rw [hfirst]
      tauto
    have hrest : (((List.finRange rest.length).map Fin.succ).filter fun i : Fin (rest.length + 1) =>
        (d :: rest)[i].key ∉ s.keys ∧ ∀ j < i, ¬ Alike (d :: rest)[j] (d :: rest)[i]).map
          (fun i => (d :: rest)[i]) = ((s.report d).2.forward rest).1 := by
      rw [ih, List.filter_map, List.map_map]
      congr 1
      refine List.filter_congr fun i _ => ?_
      exact decide_eq_decide.2 (hlater i)
    have hrange : List.finRange (d :: rest).length =
        (0 : Fin (rest.length + 1)) :: (List.finRange rest.length).map Fin.succ := List.finRange_succ
    have hnone : ∀ j : Fin (rest.length + 1), ¬ j < 0 := fun j => Fin.not_lt_zero j
    rw [forward_cons, report_eq, hrange, List.filter_cons, ← hrest]
    by_cases hd : d.key ∈ s.keys <;> simp [hd, hnone]

/-- Of a sequence of reports exactly those are forwarded that no earlier one is like, each as it is
and in the order of their arrival. Where no report stands at line zero of a nameless file, these are
the first ones of their code, severity, location and message. -/
theorem forward_first (ds : List Diagnostic) :
    (forward {} ds).1 =
        ((List.finRange ds.length).filter fun i => ∀ j < i, ¬ Alike ds[j] ds[i]).map (ds[·]) ∧
      ((∀ d ∈ ds, d.location ≠ some nowhere) → (forward {} ds).1 =
        ((List.finRange ds.length).filter fun i => ∀ j < i, ¬ Same ds[j] ds[i]).map (ds[·])) := by
  have hforward : (forward {} ds).1 =
      ((List.finRange ds.length).filter fun i => ∀ j < i, ¬ Alike ds[j] ds[i]).map (ds[·]) := by
    rw [forward_eq]
    simp
  refine ⟨hforward, fun hplaces => ?_⟩
  have hsame (i j : Fin ds.length) : Alike ds[j] ds[i] ↔ Same ds[j] ds[i] :=
    alike_iff_same (hplaces _ (List.getElem_mem ..)) (hplaces _ (List.getElem_mem ..))
  rw [hforward]
  simp only [hsame]

/-- Three reports, the last one with a note. -/
def notedReports : List Diagnostic :=
  [{ severity := .error, code := .mismatch, location := none, message := "m" },
    { severity := .error, code := .mismatch, location := some ⟨"", 0, 1⟩, message := "m" },
    { severity := .error, code := .mismatch, location := none, message := "m", notes := [default] }]

/-- The first of the noted reports of each kind are passed on, in their order. -/
theorem forward_first_notedReports :
    (∀ d ∈ notedReports, d.location ≠ some nowhere) ∧ (forward {} notedReports).1 =
      ((List.finRange notedReports.length).filter fun i =>
        ∀ j < i, ¬ Same notedReports[j] notedReports[i]).map (notedReports[·]) :=
  have hplaces : ∀ d ∈ notedReports, d.location ≠ some nowhere := by decide
  ⟨hplaces, (forward_first notedReports).2 hplaces⟩

/-- Two reports with different locations, one of them missing. -/
def placelessReports : List Diagnostic :=
  [{ severity := .error, code := .mismatch, location := none, message := "m" },
    { severity := .error, code := .mismatch, location := some ⟨"", 0, 0⟩, message := "m" }]

/-- A report at the place that stands for none is dropped behind one without a place. -/
theorem forward_drops_placeless :
    (forward {} placelessReports).1 ≠
      ((List.finRange placelessReports.length).filter fun i =>
        ∀ j < i, ¬ Same placelessReports[j] placelessReports[i]).map (placelessReports[·]) := by
  decide

end Seen

end Qll.Diagnostic
