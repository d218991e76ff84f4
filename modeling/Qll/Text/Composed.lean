import Qll.Text.Canonical

/-!
# Composed text

Equivalent texts have one composed form: every character is decomposed, combining characters are
put into the order of their classes, and then characters are put together again where possible.
Korean syllables are composed and decomposed by calculation.
-/

namespace Qll.Text

/-- Binary search for the entry whose range holds `n`, among those from `low` to `high`. -/
def searchEntry {α : Type} (bounds : α → Nat × Nat) (table : Array α) (n : Nat) :
    Nat → Nat → Nat → Option α
  | 0, _, _ => none
  | steps + 1, low, high =>
    if low < high then
      let middle := (low + high) / 2
      match table[middle]? with
      | none => none
      | some entry =>
        let (first, last) := bounds entry
        if n < first then searchEntry bounds table n steps low middle
        else if last < n then searchEntry bounds table n steps (middle + 1) high
        else some entry
    else none

/-- The decomposition of a character. -/
def decomposition? (n : Nat) : Option Decomposition :=
  searchEntry (fun d => (d.code, d.code)) decompositions n (decompositions.size + 1) 0
    decompositions.size

/-- The class of a character; zero if it does not combine. -/
def combiningClass (n : Nat) : Nat :=
  ((searchEntry (fun e => (e.1, e.2.1)) combiningClasses n (combiningClasses.size + 1) 0
    combiningClasses.size).map (·.2.2)).getD 0

/-! ## Korean syllables -/

/-- The first syllable. -/
def syllableBase : Nat := 0xAC00

/-- The number of syllables. -/
def syllableCount : Nat := 11172

/-- The letters of a syllable: a leading one, a vowel, and perhaps a trailing one. -/
def syllableLetters (n : Nat) : List Nat :=
  let i := n - syllableBase
  let front := [0x1100 + i / 588, 0x1161 + i % 588 / 28]
  if i % 28 = 0 then front else front ++ [0x11A7 + i % 28]

/-- Whether a character is a syllable. -/
def isSyllable (n : Nat) : Bool := syllableBase ≤ n && n < syllableBase + syllableCount

/-- The syllable that starts with `a` and continues with `b`. -/
def composeSyllable? (a b : Nat) : Option Nat :=
  if 0x1100 ≤ a && a < 0x1113 && 0x1161 ≤ b && b < 0x1176 then
    some (syllableBase + (a - 0x1100) * 588 + (b - 0x1161) * 28)
  else if isSyllable a && (a - syllableBase) % 28 == 0 && 0x11A8 ≤ b && b < 0x11C3 then
    some (a + (b - 0x11A7))
  else none

/-! ## Decomposing -/

/-- The parts of a character, taken apart as long as possible. No decomposition takes more than
four steps. -/
def decomposeChar : Nat → Nat → List Nat
  | 0, n => [n]
  | steps + 1, n =>
    if isSyllable n then syllableLetters n
    else
      match decomposition? n with
      | none => [n]
      | some d => d.parts.flatMap (decomposeChar steps)

/-- Inserts a combining character after those of its class or a lower one; `marks` holds them in
reverse. -/
def insertMark (n : Nat) : List Nat → List Nat
  | [] => [n]
  | m :: rest =>
    if combiningClass n < combiningClass m then m :: insertMark n rest else n :: m :: rest

/-- Puts combining characters into the order of their classes; `marks` holds, in reverse, those
that follow one another. -/
def orderMarks : List Nat → List Nat → List Nat
  | [], marks => marks.reverse
  | n :: rest, marks =>
    if combiningClass n = 0 then marks.reverse ++ n :: orderMarks rest []
    else orderMarks rest (insertMark n marks)

/-! ## Composing -/

/-- The pairs that can be put together, by first and second character, ascending. -/
def compositions : Array (Nat × Nat) :=
  let pairs := decompositions.toList.filterMap fun d =>
    match d.excluded, d.parts with
    | false, [a, b] => some (a * 0x110000 + b, d.code)
    | _, _ => none
  (pairs.mergeSort fun p q => decide (p.1 ≤ q.1)).toArray

/-- The character that two others make together. -/
def compose? (a b : Nat) : Option Nat :=
  match composeSyllable? a b with
  | some n => some n
  | none =>
    (searchEntry (fun p => (p.1, p.1)) compositions (a * 0x110000 + b) (compositions.size + 1) 0
      compositions.size).map (·.2)

/-- Puts characters together. `starter` is the last character that others can join, `marks` holds,
in reverse, those behind it that did not, and `last` is the class of the latest of these. -/
def joinMarks : List Nat → Option Nat → List Nat → Nat → List Nat
  | [], starter, marks, _ => starter.toList ++ marks.reverse
  | n :: rest, none, marks, _ =>
    if combiningClass n = 0 then marks.reverse ++ joinMarks rest (some n) [] 0
    else joinMarks rest none (n :: marks) 0
  | n :: rest, some s, marks, last =>
    let own := combiningClass n
    let blocked := !marks.isEmpty && (last == 0 || own ≤ last)
    match if blocked then none else compose? s n with
    | some joined => joinMarks rest (some joined) marks last
    | none =>
      if own = 0 then s :: marks.reverse ++ joinMarks rest (some n) [] 0
      else joinMarks rest (some s) (n :: marks) own

/-- The composed form of a text. -/
def compose (s : String) : String :=
  let parts := s.toList.flatMap fun c => decomposeChar 4 c.toNat
  String.ofList ((joinMarks (orderMarks parts []) none [] 0).map Char.ofNat)

end Qll.Text
