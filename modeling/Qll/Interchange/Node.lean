import Qll.MessagePack.Value

/-!
# Interchange nodes

A unit is a list of tagged nodes. Which fields of a node matter depends on its kind;
a field left out has its zero value.
-/

namespace Qll.Interchange

/-- A tagged node. -/
structure Node where
  kind : String := ""
  name : String := ""
  text : String := ""
  op : String := ""
  value : Int := 0
  length : Int := 0
  flags : List String := []
  type : Option Node := none
  left : Option Node := none
  right : Option Node := none
  expr : Option Node := none
  cond : Option Node := none
  init : Option Node := none
  step : Option Node := none
  args : List (Option Node) := []
  types : List (Option Node) := []
  members : List (Option Node) := []
  typeParams : List String := []
  body : List (Option Node) := []
  otherwise : List (Option Node) := []
  file : String := ""
  line : Int := 0
  column : Int := 0

instance : Inhabited Node := ⟨{}⟩

/-- Whether a node carries a flag. -/
def Node.has (n : Node) (flag : String) : Bool := n.flags.contains flag

/-! ## Writing -/

/-- A text field, left out when empty. -/
def textField (name s : String) : List (String × MessagePack.Value) :=
  if s = "" then [] else [(name, .string s)]

/-- A number field, left out when zero. -/
def intField (name : String) (n : Int) : List (String × MessagePack.Value) :=
  if n = 0 then [] else [(name, .int n)]

/-- A field of texts, left out when empty. -/
def textsField (name : String) (items : List String) : List (String × MessagePack.Value) :=
  if items.isEmpty then [] else [(name, .array (items.map .string))]

mutual

/-- The written form of a node. -/
def Node.pack : Node → MessagePack.Value
  | { kind, name, text, op, value, length, flags, type, left, right, expr, cond, init, step, args,
      types, members, typeParams, body, otherwise, file, line, column } =>
    .map (("kind", .string kind) :: textField "name" name ++ textField "text" text ++
      textField "op" op ++ (if value = 0 then [] else [("value", .int64 value)]) ++
      intField "length" length ++ textsField "flags" flags ++ childField "type" type ++
      childField "left" left ++ childField "right" right ++ childField "expr" expr ++
      childField "cond" cond ++ childField "init" init ++ childField "step" step ++
      childrenField "args" args ++ childrenField "types" types ++
      childrenField "members" members ++ textsField "typeParams" typeParams ++
      childrenField "body" body ++ childrenField "else" otherwise ++ textField "file" file ++
      intField "line" line ++ intField "column" column)

/-- The written form of a node that may be missing. -/
def packOption : Option Node → MessagePack.Value
  | none => .null
  | some n => n.pack

/-- A child, left out when missing. -/
def childField (name : String) : Option Node → List (String × MessagePack.Value)
  | none => []
  | some n => [(name, n.pack)]

/-- Children, left out when there is none. -/
def childrenField (name : String) : List (Option Node) → List (String × MessagePack.Value)
  | [] => []
  | n :: rest => [(name, .array (packOption n :: packList rest))]

/-- The written forms of a list of nodes. -/
def packList : List (Option Node) → List MessagePack.Value
  | [] => []
  | n :: rest => packOption n :: packList rest

end

/-- The written form of a unit. A missing list is written as nothing. -/
def packUnit : Option (List (Option Node)) → MessagePack.Value
  | none => .null
  | some nodes => .array (packList nodes)

/-! ## Fields by name -/

/-- How a field of a node is read: what kind of value it takes, and how it is replaced. -/
inductive Slot
  | text (set : Node → String → Node)
  | int (set : Node → Int → Node)
  | texts (get : Node → List String) (set : Node → List String → Node)
  | child (get : Node → Option Node) (set : Node → Option Node → Node)
  | children (get : Node → List (Option Node)) (set : Node → List (Option Node) → Node)

/-- The fields of a node in the order declared. -/
def slots : List (String × Slot) :=
  [("kind", .text fun n v => { n with kind := v }),
    ("name", .text fun n v => { n with name := v }),
    ("text", .text fun n v => { n with text := v }),
    ("op", .text fun n v => { n with op := v }),
    ("value", .int fun n v => { n with value := v }),
    ("length", .int fun n v => { n with length := v }),
    ("flags", .texts (·.flags) fun n v => { n with flags := v }),
    ("type", .child (·.type) fun n v => { n with type := v }),
    ("left", .child (·.left) fun n v => { n with left := v }),
    ("right", .child (·.right) fun n v => { n with right := v }),
    ("expr", .child (·.expr) fun n v => { n with expr := v }),
    ("cond", .child (·.cond) fun n v => { n with cond := v }),
    ("init", .child (·.init) fun n v => { n with init := v }),
    ("step", .child (·.step) fun n v => { n with step := v }),
    ("args", .children (·.args) fun n v => { n with args := v }),
    ("types", .children (·.types) fun n v => { n with types := v }),
    ("members", .children (·.members) fun n v => { n with members := v }),
    ("typeParams", .texts (·.typeParams) fun n v => { n with typeParams := v }),
    ("body", .children (·.body) fun n v => { n with body := v }),
    ("else", .children (·.otherwise) fun n v => { n with otherwise := v }),
    ("file", .text fun n v => { n with file := v }),
    ("line", .int fun n v => { n with line := v }),
    ("column", .int fun n v => { n with column := v })]

end Qll.Interchange
