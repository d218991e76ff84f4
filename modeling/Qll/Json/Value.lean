import Qll.Text.Basic

/-!
# JSON values

Objects keep their fields in the order in which they are written, repeated names included, and a
number keeps its spelling, so that a reader can decide what it accepts.
-/

namespace Qll.Json

/-- A JSON value. -/
inductive Value
  | null
  | bool (value : Bool)
  | number (literal : String)
  | string (text : String)
  | array (items : List Value)
  | object (fields : List (String × Value))
  deriving Inhabited

namespace Value

/-- The number `n`. -/
def int (n : Int) : Value := number (Text.decimal n)

/-- The number `n`. -/
def nat (n : Nat) : Value := number (Nat.repr n)

/-- An array of texts. -/
def strings (items : List String) : Value := array (items.map string)

/-- A text, or null. -/
def optionString : Option String → Value
  | none => null
  | some s => string s

mutual

/-- Changes every text of a value, the names of fields aside. -/
def mapTexts (f : String → String) : Value → Value
  | string s => string (f s)
  | array items => array (mapTextsList f items)
  | object fields => object (mapTextsFields f fields)
  | v => v

/-- Changes every text of some values. -/
def mapTextsList (f : String → String) : List Value → List Value
  | [] => []
  | v :: rest => mapTexts f v :: mapTextsList f rest

/-- Changes every text of some fields. -/
def mapTextsFields (f : String → String) : List (String × Value) → List (String × Value)
  | [] => []
  | (k, v) :: rest => (k, mapTexts f v) :: mapTextsFields f rest

end

instance : Coe Bool Value := ⟨bool⟩

instance : Coe Nat Value := ⟨nat⟩

instance (n : Nat) : OfNat Value n := ⟨nat n⟩

instance : Coe Int Value := ⟨int⟩

instance : Coe String Value := ⟨string⟩

instance : Coe (List String) Value := ⟨strings⟩

instance : Coe (List Value) Value := ⟨array⟩

end Value

end Qll.Json
