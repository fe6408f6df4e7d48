/-!
# Configuration values

The values that a configuration document, an environment variable or a caller may hand over before
they were checked against what a setting expects.
-/

namespace ScriptScrub.Config

/-- An unchecked value. The keys of a table are values themselves, as a document may use any. -/
inductive Value where
  | null
  | flag (b : Bool)
  | whole (n : Int)
  | number (x : Float)
  | text (s : String)
  | list (items : List Value)
  | table (entries : List (Value × Value))
  /-- A value of a kind that no setting takes, such as a date. -/
  | other
deriving Inhabited, Repr

/-- Keys and values in the order in which the keys first came. -/
abbrev Entries := List (Value × Value)

namespace Value

/-- Two keys that a table cannot hold side by side. -/
def sameKey : Value → Value → Bool
  | text a, text b => a == b
  | null, null => true
  | flag a, flag b => a == b
  | whole a, whole b => a == b
  | number a, number b => a == b
  | flag a, whole b | whole b, flag a => b == (if a then 1 else 0)
  | flag a, number b | number b, flag a => b == (if a then 1.0 else 0.0)
  | whole a, number b | number b, whole a => b == Float.ofInt a
  | _, _ => false

/-- What a document without content, and with any other empty value, counts as: nothing at all. -/
def isEmpty : Value → Bool
  | null => true
  | flag b => !b
  | whole n => n == 0
  | number x => x == 0.0
  | text s => s.isEmpty
  | list xs => xs.isEmpty
  | table es => es.isEmpty
  | other => false

/-- A key that names something. -/
def isText : Value → Bool
  | text _ => true
  | _ => false

end Value

namespace Entries

/-- The value under a key. -/
def get? (entries : Entries) (key : Value) : Option Value :=
  (entries.find? fun e => e.1.sameKey key).map (·.2)

/-- The value under a name. -/
def named? (entries : Entries) (name : String) : Option Value := get? entries (.text name)

/-- Puts a value under a key, which keeps its place if it is there already. -/
def put : Entries → Value → Value → Entries
  | [], key, value => [(key, value)]
  | e :: es, key, value => if e.1.sameKey key then (e.1, value) :: es else e :: put es key value

end Entries

mutual

/-- Adds the entries of a second table to a first: tables under one key are merged, any other value
of the second table replaces that of the first. -/
def merge (base : Entries) : Entries → Entries
  | [] => base
  | (key, value) :: rest =>
    merge (Entries.put base key (mergeValue (Entries.get? base key) value)) rest

/-- The value under a key that had the value `old` before. -/
def mergeValue (old : Option Value) : Value → Value
  | .table entries =>
    match old with
    | some (.table earlier) => .table (merge earlier entries)
    | _ => .table entries
  | value => value

end

end ScriptScrub.Config
